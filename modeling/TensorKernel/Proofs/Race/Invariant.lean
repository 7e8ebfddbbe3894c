import TensorKernel.Proofs.Race.Steps

/-! Races as a whole. A step of one call takes nothing from another, so what each call relies on
holds at every moment, and counters lose nothing. -/
namespace TensorKernel.Race

open Folder List

variable {r : Request} {root : String} {output : Fingerprint.Origin → Content}
  {base files files' : FileTree} {l : Location} {F₀ F F' E : Folder} {s s' : Store}
  {phase phase' : Phase} {dir name : String} {c : Call} {i : Nat}

/-! ### What other calls see of it -/

variable {dir? dir'? : Option String}

theorem not_isScratch_library (r : Request) (identity : String) :
    ¬ IsScratch (r.library identity) := fun h => h.library_ne r identity rfl

theorem Effect.own (h : Effect r F dir? dir'? F') (hd : dir'? = some dir) :
    dir? = some dir ∨ F.lookup dir = none := by
  cases h with
  | idle => exact .inl hd
  | leave => cases hd
  | create hdir hfree =>
    cases hd
    exact .inr hfree
  | work => exact .inl hd
  | install => exact .inl hd
  | remove => cases hd

theorem Effect.lookup_scratch (h : Effect r F dir? dir'? F') (hs : IsScratch dir)
    (hd : dir? ≠ some dir) (hd' : dir'? ≠ some dir) : F'.lookup dir = F.lookup dir := by
  have hne {d : String} (hne : some d ≠ some dir) : dir ≠ d := fun heq => hne (heq ▸ rfl)
  cases h with
  | idle => rfl
  | leave => rfl
  | create hdir hfree => exact lookup_alter_of_ne (hne hd') _ _
  | work E hdir => exact lookup_alter_of_ne (hne hd) _ _
  | install E hdir hi hc =>
    rw [lookup_alter_of_ne (hs.library_ne r _).symm]
    exact lookup_alter_of_ne (hne hd) _ _
  | remove hdir => exact lookup_alter_of_ne (hne hd) _ _

theorem Effect.lookup_other (h : Effect r F dir? dir'? F') (hn : ¬ IsScratch name) :
    F'.lookup name = F.lookup name ∨ ∃ identity content, r.compiler.identity = .ok identity ∧
      r.compiler.compile r.source.text = .ok (some content) ∧ name = r.library identity ∧
      F'.lookup name = some (.file content) := by
  have hne {d : String} (hd : IsScratch d) : name ≠ d := fun heq => hn (heq ▸ hd)
  cases h with
  | idle => exact .inl rfl
  | leave => exact .inl rfl
  | create hdir hfree => exact .inl (lookup_alter_of_ne (hne hdir) _ _)
  | work E hdir => exact .inl (lookup_alter_of_ne (hne hdir) _ _)
  | @install dir identity content E hdir hi hc =>
    by_cases hlibrary : name = r.library identity
    · subst hlibrary
      exact .inr ⟨identity, content, hi, hc, rfl, lookup_alter_self rfl⟩
    · rw [lookup_alter_of_ne hlibrary]
      exact .inl (lookup_alter_of_ne (hne hdir) _ _)
  | remove hdir => exact .inl (lookup_alter_of_ne (hne hdir) _ _)

theorem Kept.frame {r' : Request} (h : Kept root output F₀ F r' phase)
    (he : Effect r F dir? dir'? F')
    (hdir : ∀ dir, phase.dir? = some dir → dir? ≠ some dir ∧ dir'? ≠ some dir)
    (hsame : ∀ identity identity' content, r.compiler.identity = .ok identity →
      r'.compiler.identity = .ok identity' → r.compiler.compile r.source.text = .ok (some content) →
      r'.library identity' = r.library identity → content = output (r'.origin identity')) :
    Kept root output F₀ F' r' phase := by
  refine ⟨?_, ?_⟩
  · intro dir hd
    obtain ⟨E, hE, hcontents⟩ := h.scratch dir hd
    obtain ⟨hne, hne'⟩ := hdir dir hd
    refine ⟨E, ⟨hE.name, hE.fine, hE.new, ?_⟩, hcontents⟩
    rw [he.lookup_scratch hE.name hne hne', hE.folder]
  · intro hserved
    obtain ⟨identity', hp⟩ := h.present hserved
    refine ⟨identity', hp.known, hp.fine, ?_⟩
    rcases he.lookup_other (not_isScratch_library r' identity') with hlookup | hnew
    · rw [hlookup, hp.library]
    · obtain ⟨identity, content, hi, hc, hname, hlookup⟩ := hnew
      rw [hlookup, hsame identity identity' content hi hp.known hc hname]

/-! ### All calls together -/

/-- What holds at every moment of a race: calls have build directories of their own, and beside
these the store has the files that were there and whole libraries of calls. -/
structure Sound (events : List Store.Event) (output : Fingerprint.Origin → Content)
    (root : String) (base : FileTree) (l : Location) (F₀ : Folder) (x : Race) (F : Folder) :
    Prop where
  holds : base.Holds root l F₀ x.files F
  rooted : ∀ s ∈ x.stores, s.root = root
  asked : x.requests ⊆ events
  kept : ∀ (i : Nat) (c : Call), x.calls[i]? = some c → Kept root output F₀ F c.request c.phase
  apart : ∀ (i j : Nat) (c c' : Call) (dir : String), x.calls[i]? = some c →
    x.calls[j]? = some c' → c.phase.dir? = some dir → c'.phase.dir? = some dir → i = j
  library : ∀ name content, ¬ IsScratch name → F.lookup name = some (.file content) →
    F₀.lookup name = some (.file content) ∨ ∃ r identity, .request r ∈ x.requests ∧
      r.compiler.identity = .ok identity ∧ name = r.library identity ∧
      content = output (r.origin identity)

variable {events : List Store.Event} {x x' : Race}

theorem Step.root_eq (h : Step r s files phase phase' s' files') : s'.root = s.root := by
  cases h <;> rfl

theorem mem_requests (hc : x.calls[i]? = some c) : .request c.request ∈ x.requests :=
  mem_map_of_mem (mem_of_getElem? hc)

theorem getElem?_set_phase (hc : x.calls[i]? = some c) (phase : Phase) (j : Nat) :
    (x.calls.set i { c with phase })[j]? =
      if i = j then some { c with phase } else x.calls[j]? := by
  rw [getElem?_set]
  split
  next heq =>
    subst heq
    rw [if_pos (List.getElem?_eq_some_iff.1 hc).1]
  · rfl

theorem requests_set (hc : x.calls[i]? = some c) (files : FileTree) (stores : List Store)
    (phase : Phase) : requests ⟨files, stores, x.calls.set i { c with phase }⟩ = x.requests := by
  apply ext_getElem?
  intro j
  simp only [requests, getElem?_map, getElem?_set_phase hc]
  split
  next heq =>
    subst heq
    rw [hc]
    rfl
  · rfl

section
variable (hlaw : Store.Lawful events output)
  (hclean : ∀ r, .request r ∈ events → ∀ identity, r.compiler.identity = .ok identity →
    FileTree.Fine (r.artifact root identity).path (r.library identity) → ∀ content,
      F₀.lookup (r.library identity) = some (.file content) → content = output (r.origin identity))
include hlaw hclean

theorem Sound.content_eq (h : Sound events output root base l F₀ x F)
    (hr : .request r ∈ events) {identity : String} (hi : r.compiler.identity = .ok identity)
    (hfine : FileTree.Fine (r.artifact root identity).path (r.library identity))
    {content : Content} (hlookup : F.lookup (r.library identity) = some (.file content)) :
    content = output (r.origin identity) := by
  rcases h.library _ _ (not_isScratch_library r identity) hlookup with hbefore | hnew
  · exact hclean r hr identity hi hfine content hbefore
  · obtain ⟨r', identity', hr', hi', hname, rfl⟩ := hnew
    rw [(hlaw.origin_eq hr (h.asked hr') hi hi' hname).2]

theorem Sound.step (h : Sound events output root base l F₀ x F) {i : Nat} {c : Call}
    (hc : x.calls[i]? = some c) (hs : x.stores[c.handle]? = some s)
    (hstep : Step c.request s x.files c.phase phase s' files') :
    ∃ F', Sound events output root base l F₀
      ⟨files', x.stores.set c.handle s', x.calls.set i { c with phase }⟩ F' := by
  have hasked := h.asked (mem_requests hc)
  have hout (identity : String) (content : Content) (hi : c.request.compiler.identity = .ok identity)
      (hcompile : c.request.compiler.compile c.request.source.text = .ok (some content)) :
      content = output (c.request.origin identity) :=
    hlaw.output c.request hasked identity hi content hcompile
  have hroot := h.rooted s (mem_of_getElem? hs)
  obtain ⟨F', hF', heffect, hkept⟩ := hstep.effect hroot (hlaw.name c.request hasked) h.holds
    (h.kept i c hc) (fun identity content hi hfine => h.content_eq hlaw hclean hasked hi hfine)
    hout
  -- The build directory before or after the step is that of no other call.
  have hapart (j : Nat) (c' : Call) (hne : i ≠ j) (hj : x.calls[j]? = some c') (dir : String)
      (hdir : c'.phase.dir? = some dir) : c.phase.dir? ≠ some dir ∧ phase.dir? ≠ some dir := by
    have hold : c.phase.dir? ≠ some dir := fun hd => hne (h.apart i j c c' dir hc hj hd hdir)
    refine ⟨hold, ?_⟩
    intro hnew
    rcases heffect.own hnew with hd | hfree
    · exact hold hd
    · obtain ⟨E, hE, -⟩ := (h.kept j c' hj).scratch dir hdir
      rw [hE.folder] at hfree
      cases hfree
  refine ⟨F', hF', ?_, ?_, ?_, ?_, ?_⟩
  · intro s₁ hs₁
    rcases mem_or_eq_of_mem_set hs₁ with hmem | rfl
    · exact h.rooted s₁ hmem
    · rw [hstep.root_eq, hroot]
  · rw [requests_set hc]
    exact h.asked
  · intro j c' hj
    rw [getElem?_set_phase hc] at hj
    split at hj
    · cases hj
      exact hkept
    next hne =>
      refine (h.kept j c' hj).frame heffect (hapart j c' hne hj) ?_
      intro identity identity' content hi hi' hcompile hname
      rw [hout identity content hi hcompile,
        (hlaw.origin_eq (h.asked (mem_requests hj)) hasked hi' hi hname).2]
  · intro j k c₁ c₂ dir hj hk hd₁ hd₂
    rw [getElem?_set_phase hc] at hj hk
    split at hj <;> split at hk
    next hij hik => exact hij.symm.trans hik
    next hij hik =>
      cases hj
      exact absurd hd₁ (hapart k c₂ hik hk dir hd₂).2
    next hij hik =>
      cases hk
      exact absurd hd₂ (hapart j c₁ hij hj dir hd₁).2
    next => exact h.apart j k c₁ c₂ dir hj hk hd₁ hd₂
  · intro name content hn hlookup
    rw [requests_set hc]
    rcases heffect.lookup_other hn with hsame | hnew
    · exact h.library name content hn (hsame ▸ hlookup)
    · obtain ⟨identity, content', hi, hcompile, hname, hlookup'⟩ := hnew
      obtain rfl : content' = content := by simpa using hlookup'.symm.trans hlookup
      exact .inr ⟨c.request, identity, mem_requests hc, hi, hname, hout identity _ hi hcompile⟩

omit hlaw hclean in
theorem Sound.begin (h : Sound events output root base l F₀ x F) {handle : Nat}
    (hr : .request r ∈ events) :
    Sound events output root base l F₀ { x with calls := x.calls ++ [⟨handle, r, .start⟩] } F := by
  have hcalls (i : Nat) (c : Call) (hc : (x.calls ++ [⟨handle, r, .start⟩])[i]? = some c) :
      x.calls[i]? = some c ∨ c = ⟨handle, r, .start⟩ := by
    rw [getElem?_append] at hc
    split at hc
    · exact .inl hc
    · exact .inr (mem_singleton.1 (mem_of_getElem? hc))
  have hrequests : requests { x with calls := x.calls ++ [⟨handle, r, .start⟩] }
      = x.requests ++ [.request r] := map_append
  refine ⟨h.holds, h.rooted, ?_, ?_, ?_, ?_⟩
  · rw [hrequests]
    exact append_subset.2 ⟨h.asked, by simpa using hr⟩
  · intro i c hc
    rcases hcalls i c hc with hc | rfl
    · exact h.kept i c hc
    · exact .outside rfl (by simp [Phase.served])
  · intro i j c c' dir hc hc' hd hd'
    rcases hcalls i c hc with hc | rfl
    · rcases hcalls j c' hc' with hc' | rfl
      · exact h.apart i j c c' dir hc hc' hd hd'
      · cases hd'
    · cases hd
  · intro name content hn hlookup
    rw [hrequests]
    rcases h.library name content hn hlookup with hbefore | ⟨r', identity, hr', hrest⟩
    · exact .inl hbefore
    · exact .inr ⟨r', identity, mem_append_left _ hr', hrest⟩

theorem Sound.next (h : Sound events output root base l F₀ x F) (hnext : Next x x')
    (hasked : x'.requests ⊆ events) : ∃ F', Sound events output root base l F₀ x' F' := by
  cases hnext with
  | begin r hhandle => exact ⟨F, h.begin (hasked (by simp [requests]))⟩
  | step hc hs hstep => exact h.step hlaw hclean hc hs hstep

end

theorem requests_next (h : Next x x') : x.requests ⊆ x'.requests := by
  cases h with
  | begin r hhandle =>
    rw [requests, requests, map_append]
    exact subset_append_left _ _
  | step hc hs hstep =>
    rw [requests_set hc]
    exact Subset.refl _

theorem requests_run (h : Run x x') : x.requests ⊆ x'.requests := by
  induction h with
  | refl => exact Subset.refl _
  | tail _ hnext ih => exact Subset.trans ih (requests_next hnext)

theorem sound_of_run (hlaw : Store.Lawful events output)
    (hclean : ∀ r, .request r ∈ events → ∀ identity, r.compiler.identity = .ok identity →
      FileTree.Fine (r.artifact root identity).path (r.library identity) → ∀ content,
        F₀.lookup (r.library identity) = some (.file content) →
          content = output (r.origin identity))
    (hrun : Run x x') (hasked : x'.requests ⊆ events)
    (h : Sound events output root base l F₀ x F) :
    ∃ F', Sound events output root base l F₀ x' F' := by
  induction hrun with
  | refl => exact ⟨F, h⟩
  | tail _ hnext ih =>
    obtain ⟨F₁, hF₁⟩ := ih (Subset.trans (requests_next hnext) hasked)
    exact hF₁.next hlaw hclean hnext hasked

theorem returned_of_run (hrun : Run x x') (hc : x.calls[i]? = some c) {outcome : Outcome}
    (hdone : c.phase = .done outcome) : x'.calls[i]? = some c := by
  induction hrun with
  | refl => exact hc
  | tail _ hnext ih =>
    cases hnext with
    | begin r hhandle =>
      rw [List.getElem?_append_left (List.getElem?_eq_some_iff.1 ih).1, ih]
    | @step j c' s s' phase files' hc' hs hstep =>
      rw [getElem?_set_phase hc']
      split
      next heq =>
        subst heq
        cases hc'.symm.trans ih
        rw [hdone] at hstep
        cases hstep with
        | fail e hworks hdir => cases hworks
      · exact ih

/-! ### Counters -/

/-- How many calls through a handle have come to a phase of some kind. -/
def tally (x : Race) (handle : Nat) (kind : Phase → Bool) : Nat :=
  x.calls.countP fun c => c.handle == handle && kind c.phase

theorem Step.counters (h : Step r s files phase phase' s' files') :
    s'.hits + (if phase.countedHit then 1 else 0) = s.hits + (if phase'.countedHit then 1 else 0) ∧
      s'.builds + (if phase.countedBuild then 1 else 0)
        = s.builds + (if phase'.countedBuild then 1 else 0) := by
  cases h with
  | fail e hworks hdir =>
    cases phase <;> first | exact ⟨rfl, rfl⟩ | cases hworks
  | @clean _ failure => cases failure <;> exact ⟨rfl, rfl⟩
  | @notCleaned _ failure => cases failure <;> exact ⟨rfl, rfl⟩
  | _ => exact ⟨rfl, rfl⟩

/-- What is to be counted has been counted, for each handle. -/
def Counted (stores : List Store) (x : Race) : Prop :=
  ∀ (handle : Nat) (s₀ : Store), stores[handle]? = some s₀ → ∃ s, x.stores[handle]? = some s ∧
    s.hits = s₀.hits + x.tally handle Phase.countedHit ∧
    s.builds = s₀.builds + x.tally handle Phase.countedBuild

theorem tally_set (hc : x.calls[i]? = some c) (files : FileTree) (stores : List Store)
    (phase : Phase) (handle : Nat) (kind : Phase → Bool) :
    tally ⟨files, stores, x.calls.set i { c with phase }⟩ handle kind
        + (if c.handle = handle ∧ kind c.phase = true then 1 else 0) =
      x.tally handle kind + (if c.handle = handle ∧ kind phase = true then 1 else 0) := by
  obtain ⟨hi, rfl⟩ := List.getElem?_eq_some_iff.1 hc
  have hle := @List.boole_getElem_le_countP _
    (fun c : Call => c.handle == handle && kind c.phase) x.calls i hi
  rw [tally, tally, countP_set hi]
  simp only [Bool.and_eq_true, beq_iff_eq] at hle ⊢
  omega

theorem Counted.next {stores : List Store} (h : Counted stores x) (hnext : Next x x') :
    Counted stores x' := by
  intro handle s₀ hs₀
  obtain ⟨s, hs, hhits, hbuilds⟩ := h handle s₀ hs₀
  cases hnext with
  | @begin handle' r hhandle =>
    refine ⟨s, hs, hhits.trans ?_, hbuilds.trans ?_⟩
    · simp [tally, Phase.countedHit]
    · simp [tally, Phase.countedBuild]
  | @step i c s₁ s' phase files' hc hs₁ hstep =>
    have hhit := tally_set hc files' (x.stores.set c.handle s') phase handle Phase.countedHit
    have hbuild := tally_set hc files' (x.stores.set c.handle s') phase handle Phase.countedBuild
    obtain ⟨hstepHits, hstepBuilds⟩ := hstep.counters
    by_cases heq : c.handle = handle
    · subst heq
      obtain rfl : s = s₁ := Option.some.inj (hs.symm.trans hs₁)
      refine ⟨s', ?_, ?_, ?_⟩
      · rw [List.getElem?_set_self (List.getElem?_eq_some_iff.1 hs).1]
      · simp only [true_and] at hhit
        omega
      · simp only [true_and] at hbuild
        omega
    · refine ⟨s, ?_, ?_, ?_⟩
      · rw [getElem?_set_ne heq, hs]
      · simp only [heq, false_and, if_false] at hhit
        omega
      · simp only [heq, false_and, if_false] at hbuild
        omega

theorem counted_of_run {files : FileTree} {stores : List Store} (hrun : Run ⟨files, stores, []⟩ x) :
    Counted stores x := by
  induction hrun with
  | refl => exact fun handle s₀ hs₀ => ⟨s₀, hs₀, rfl, rfl⟩
  | tail _ hnext ih => exact ih.next hnext

end TensorKernel.Race
