import TensorKernel.Proofs.Draft.Chains
import TensorKernel.Proofs.Draft.Placing
import TensorKernel.Proofs.Draft.Typing
import TensorKernel.Proofs.Lowering

/-! Scoping of captures. As long as no error is noted and chains are continued in their own
blocks only, the statements of all open blocks are scoped, and so is the code of the graph
that comes of them. -/
namespace TensorKernel

open List

variable {s : Draft} {outer blocks : List Block} {r q : Recording} {branches : List Branch}
  {b : Block} {c : Call} {before : List Stmt} {t : Started} {scope : ScopeId} {index : Nat}
  {op : Op} {place last : Nat} {u : Started} {guard : Option NodeId} {rest : List Purpose}

namespace Recording

/-- Each open block is scoped where the names of the blocks around it are known. -/
def StackScoped (ops : Ops) : List Block → Prop
  | [] => True
  | b :: outer => BlockScoped ops (names outer) b.body ∧ StackScoped ops outer

theorem StackScoped.mono {a b : Ops} (hops : ∀ e op, a e = some op → b e = some op)
    (h : StackScoped a blocks) : StackScoped b blocks := by
  induction blocks with
  | nil => trivial
  | cons block outer ih => exact ⟨h.1.mono hops .rfl, ih h.2⟩

theorem StackScoped.pushStmt {ops : Ops} {s : Stmt} (h : StackScoped ops r.blocks)
    (hs : s.Scoped ops (names r.blocks)) : StackScoped ops (r.pushStmt s).blocks :=
  ⟨blockScoped_append.2 ⟨h.1, blockScoped_singleton.2 hs⟩, h.2⟩

theorem Grows.ops (h : r.Grows q) (e : NodeId) (op : Op) (ho : r.ops e = some op) :
    q.ops e = some op := by
  obtain ⟨node, hn, rfl⟩ := Option.map_eq_some_iff.1 ho
  exact Option.map_eq_some_iff.2 ⟨node, h.nodes e node hn, Eq.refl _⟩

theorem blocks_addNode_inline (r : Recording) (h : op.isInline = true) (type : ElementType) :
    (r.addNode op type).blocks = r.blocks := by
  simp [Recording.addNode, h, blocks]

theorem blocks_addNode (r : Recording) (h : op.isInline = false) (type : ElementType) :
    (r.addNode op type).blocks = (r.pushStmt (.bind r.nodes.size)).blocks := by
  simp [Recording.addNode, h, blocks, Recording.pushStmt]

theorem ops_addNode (r : Recording) (op : Op) (type : ElementType) :
    (r.addNode op type).ops r.nodes.size = some op := by
  unfold Recording.addNode Recording.ops
  split <;> simp [Recording.pushStmt]

theorem Edit.blocks_cases (he : Edit r q) (hp : r.Placed) (herr : q.error = none) :
    q.blocks = r.blocks ∨ ∃ s : Stmt, q.blocks = (r.pushStmt s).blocks ∧
      s.Scoped q.ops (names r.blocks) ∧ ∀ branches, s ≠ .cond branches := by
  have hg := he.grows
  have hr := hg.error herr
  have avail {e : NodeId} (hu : r.Usable e) : Available q.ops (names r.blocks) e :=
    (hp.available hu).mono hg.ops .rfl
  cases he with
  | note | output | domain => exact .inl rfl
  | node op type hsound =>
    obtain ⟨⟨hoperands, hread⟩, -⟩ := hsound hr
    cases hi : op.isInline with
    | true => exact .inl (blocks_addNode_inline r hi type)
    | false =>
      refine .inr ⟨_, blocks_addNode r hi type, ?_, nofun⟩
      rw [Stmt.Scoped]
      exact ⟨op, ops_addNode r op type, fun o ho => avail (hoperands o ho),
        fun v hv => hp.declared_of_usable (hread v hv)⟩
  | slot type init hsound =>
    refine .inr ⟨_, rfl, ?_, nofun⟩
    rw [Stmt.Scoped]
    exact avail (hsound hr)
  | assign v x hsound =>
    obtain ⟨hv, hx⟩ := hsound hr
    refine .inr ⟨_, rfl, ?_, nofun⟩
    rw [Stmt.Scoped]
    exact ⟨hp.declared_of_usable hv, avail hx⟩
  | store k indices x hsound =>
    obtain ⟨-, hi, hx⟩ := hsound hr
    refine .inr ⟨_, rfl, ?_, nofun⟩
    rw [Stmt.Scoped]
    exact ⟨fun i hm => avail (hi i hm), avail hx⟩

theorem StackScoped.edit (h : StackScoped r.ops r.blocks) (hp : r.Placed) (he : Edit r q)
    (herr : q.error = none) : StackScoped q.ops q.blocks := by
  have hmono := h.mono he.grows.ops
  rcases he.blocks_cases hp herr with hb | ⟨s, hb, hs, -⟩
  · exact hb ▸ hmono
  · exact hb ▸ hmono.pushStmt hs

theorem StackScoped.edits (h : StackScoped r.ops r.blocks) (hp : r.Placed) (he : Edits r q)
    (herr : q.error = none) : StackScoped q.ops q.blocks := by
  induction he with
  | refl => exact h
  | tail hs he ih => exact (ih (he.grows.error herr)).edit (hp.edits hs) he herr

theorem Reopened.ops {chain : Stmt} {bound sealed : List NodeId}
    (h : r.Reopened index guard place q before chain bound sealed) : q.ops = r.ops := by
  funext e
  unfold Recording.ops
  rw [h.nodes]
  cases r.nodes[e]? with
  | none => rfl
  | some node => by_cases hm : e ∈ sealed <;> simp [hm]

theorem Reopened.names {chain : Stmt} {bound sealed : List NodeId}
    (h : r.Reopened index guard place q before chain bound sealed) :
    (Recording.names r.blocks).Within (Recording.names q.blocks) := by
  have hblocks : ∀ b ∈ r.blocks, ∃ c ∈ q.blocks, ∀ s ∈ b.body, s ∈ c.body := by
    intro b hb
    rcases mem_cons.1 hb with rfl | hb
    · exact ⟨q.current, mem_cons_self, fun s hs => h.mem_iff.2 hs⟩
    · exact ⟨b, mem_cons_of_mem _ (h.outer ▸ hb), fun s hs => hs⟩
  refine ⟨fun e he => ?_, fun v hv => ?_⟩
  · obtain ⟨b, hb, hm⟩ := mem_nodes_names.1 he
    obtain ⟨c, hc, hsub⟩ := hblocks b hb
    exact mem_nodes_names.2 ⟨c, hc, hsub _ hm⟩
  · obtain ⟨b, hb, x, hm⟩ := mem_slots_names.1 hv
    obtain ⟨c, hc, hsub⟩ := hblocks b hb
    exact mem_slots_names.2 ⟨c, hc, x, hsub _ hm⟩

end Recording

/-- All branches are guarded, so that one more can be added. -/
def Extendable (branches : List Branch) : Prop :=
  branches ≠ [] ∧ ∀ b ∈ branches, b.guard.isSome

theorem Extendable.snoc (h : Extendable branches) (g : NodeId) (body : List Stmt) :
    Extendable (branches ++ [.mk (some g) body]) := by
  refine ⟨by simp, fun b hb => ?_⟩
  rcases mem_append.1 hb with hb | hb
  · exact h.2 b hb
  · rw [mem_singleton.1 hb]
    rfl

theorem Extendable.proper (h : Extendable branches) (guard : Option NodeId) (body : List Stmt) :
    Proper ((branches ++ [Branch.mk guard body]).map Branch.guard) := by
  rw [map_append]
  refine proper_snoc (by simpa using h.1) ?_ guard
  intro g hg
  obtain ⟨b, hb, rfl⟩ := mem_map.1 hg
  exact h.2 b hb

namespace Draft
open Recording

def Distinct (s : Draft) : Prop :=
  ∀ (i j : Nat) (t u : Started), s.chains[i]? = some t → s.chains[j]? = some u →
    t.scope = u.scope → t.scope ∈ s.recording.scopes → t.place = u.place → i = j

theorem Distinct.congr {t : Draft} (h : s.Distinct)
    (hchains : ∀ (i : Nat) (u : Started), t.chains[i]? = some u →
      ∃ v, s.chains[i]? = some v ∧ u.scope = v.scope ∧ u.place = v.place)
    (hscopes : ∀ u ∈ s.chains, u.scope ∈ t.recording.scopes → u.scope ∈ s.recording.scopes) :
    t.Distinct := by
  intro i j u w hu hw hsame hopen hplace
  obtain ⟨u', hu', hus, hup⟩ := hchains i u hu
  obtain ⟨w', hw', hws, hwp⟩ := hchains j w hw
  rw [hus] at hopen
  refine h i j u' w' hu' hw' ?_ (hscopes u' (mem_of_getElem? hu') hopen) ?_
  · rw [← hus, ← hws, hsame]
  · rw [← hup, ← hwp, hplace]

theorem distinct_start (id : RecordingId) (inputs : List TensorType) :
    (start id inputs).Distinct := by
  intro i j t u ht
  simp [start] at ht

theorem mem_scopes_of_close (ho : r.outer = b :: outer) {s : ScopeId}
    (h : s ∈ (b :: outer).map Block.scope) : s ∈ r.scopes := by
  rw [scopes, blocks, ho]
  exact mem_cons_of_mem _ h

theorem mem_scopes_of_open (ht : s.Tracks) (hm : t ∈ s.chains)
    (hsize : s.recording.parents.size ≤ q.parents.size) (h : t.scope ∈ q.openBlock.scopes) :
    t.scope ∈ q.scopes := by
  rcases mem_cons.1 h with he | h
  · have hlt := ht.scopes t hm
    rw [he] at hlt
    exact absurd (Nat.lt_of_lt_of_le hlt hsize) (Nat.lt_irrefl _)
  · exact h

theorem place_follow (hs : t.scope = scope) (hle : t.place ≤ index) :
    (t.follow scope index last).place = if t.place = index then last else t.place := by
  unfold Started.follow
  rw [if_pos hs]
  rw [if_neg (show ¬index < t.place by omega)]

theorem follow_place_inj (hsame : t.scope = u.scope) (ht : t.scope = scope → t.place ≤ index)
    (hu : u.scope = scope → u.place ≤ index) (hlast : index ≤ last)
    (h : (t.follow scope index last).place = (u.follow scope index last).place) :
    t.place = u.place := by
  by_cases hs : t.scope = scope
  · have hus : u.scope = scope := hsame.symm.trans hs
    have hlet := ht hs
    have hleu := hu hus
    rw [place_follow hs hlet, place_follow hus hleu] at h
    split at h <;> split at h <;> omega
  · have hus : ¬u.scope = scope := fun he => hs (hsame.trans he)
    rwa [Started.follow, if_neg hs, Started.follow, if_neg hus] at h

theorem getElem?_snoc {α : Type} {l : List α} {x y : α} {i : Nat}
    (h : (l ++ [x])[i]? = some y) : l[i]? = some y ∨ i = l.length ∧ y = x := by
  by_cases hi : i < l.length
  · exact .inl ((List.getElem?_append_left hi).symm.trans h)
  · have hle : i < l.length + 1 := by simpa using (List.getElem?_eq_some_iff.1 h).1
    have he : i = l.length := by omega
    subst he
    exact .inr ⟨rfl, by simpa using h.symm⟩

theorem Move.distinct {t : Draft} (h : Move s c t) (hn : s.Nests) (ht : s.Tracks) (hs : s.Distinct) :
    t.Distinct := by
  cases h with
  | edit he hc _ =>
    refine hs.congr (fun i u hu => ⟨u, hc ▸ hu, rfl, rfl⟩) fun u _ hu => ?_
    rwa [he.grows.scopes] at hu
  | enter _ hx =>
    refine hs.congr (fun i u hu => ⟨u, hu, rfl, rfl⟩) fun u hu hm => ?_
    exact mem_scopes_of_open ht hu (Nat.le_refl _) hm
  | @resume key place w guard e q _ hw _ _ _ hq =>
    obtain ⟨-, before, chain, bound, sealed, hr⟩ := reopened_of_reopen hq
    have hscope : q.current.scope = s.recording.current.scope := hr.scope
    have hlast : w.chain.index ≤ place := by rw [hr.place, hr.length]; omega
    have hle (u : Started) (hu : u ∈ s.chains) (he : u.scope = s.recording.current.scope) :
        u.place ≤ w.chain.index := by
      obtain ⟨-, -, branches, hb⟩ := (ht.standing u hu).1 he
      exact place_le_of_getElem?_cond hr hb
    intro i j u x hu hx hsame hopen hplace
    obtain ⟨u', hu', hus, hup⟩ := getElem?_continued hu
    obtain ⟨x', hx', hxs, hxp⟩ := getElem?_continued hx
    have hsame' : u'.scope = x'.scope := by rw [hus, hxs, hsame]
    have hum := mem_of_getElem? hu'
    refine hs i j u' x' hu' hx' hsame' ?_ ?_
    · rw [← hus] at hopen
      have hm := mem_scopes_of_open ht hum hr.parents_le hopen
      rwa [hr.scopes] at hm
    · rw [hup, hxp, hscope] at hplace
      exact follow_place_inj hsame' (hle u' hum) (hle x' (mem_of_getElem? hx')) hlast hplace
  | @leave p rest _ hp =>
    obtain ⟨b, outer, ho⟩ := hn.outer_eq hp
    have hclosed := closed_complete rest p ho
    have hopen (u : ScopeId) (hu : u ∈ (s.complete rest p).recording.scopes) :
        u ∈ s.recording.scopes := by
      refine mem_scopes_of_close ho ?_
      simpa only [scopes, blocks, map_cons, hclosed.scope, hclosed.outer] using hu
    cases p with
    | first cond =>
      have hnew (u : Started) (hu : u ∈ s.chains) (he : u.scope = b.scope) :
          u.place < b.body.length := by
        have hstand := (ht.standing u hu).2
        rw [ho] at hstand
        obtain ⟨-, -, branches, hb⟩ := hstand.1 he
        exact (List.getElem?_eq_some_iff.1 hb).1
      have hchains : (s.complete rest (.first cond)).chains =
          s.chains ++ [⟨⟨s.recording.id, outer.length, b.body.length, false⟩, b.scope,
            b.body.length⟩] := by
        unfold complete
        rw [closeBlock_eq ho]
        rfl
      intro i j u x hu hx hsame hscope hplace
      rw [hchains] at hu hx
      rcases getElem?_snoc hu with hu | ⟨hi, rfl⟩
      · rcases getElem?_snoc hx with hx | ⟨hj, rfl⟩
        · exact hs i j u x hu hx hsame (hopen _ hscope) hplace
        · exact absurd hplace (Nat.ne_of_lt (hnew u (mem_of_getElem? hu) hsame))
      · rcases getElem?_snoc hx with hx | ⟨hj, rfl⟩
        · exact absurd hplace.symm (Nat.ne_of_lt (hnew x (mem_of_getElem? hx) hsame.symm))
        · omega
    | further key index guard =>
      refine hs.congr (fun i u hu => ?_) fun u _ hu => hopen _ hu
      obtain ⟨v, hv, hscope, hplace, -⟩ := getElem?_complete hu
      exact ⟨v, hv, hscope, hplace⟩
  | @abandon p rest _ hp =>
    obtain ⟨b, outer, ho⟩ := hn.outer_eq hp
    rw [closeBlock_eq ho]
    exact hs.congr (fun i u hu => ⟨u, hu, rfl, rfl⟩) fun u _ hu => mem_scopes_of_close ho hu

/-- Where the block of a chain is open and the chain is not closed, each of its branches
has a guard. -/
def Unclosed (t : Started) : List Block → Prop :=
  Where t.scope fun b _ => t.chain.closed = false →
    ∃ branches, b.body[t.place]? = some (.cond branches) ∧ Extendable branches

theorem Unclosed.congr (h : Unclosed t blocks) (hscope : u.scope = t.scope)
    (hplace : u.place = t.place) (hclosed : u.chain.closed = false → t.chain.closed = false) :
    Unclosed u blocks := by
  unfold Unclosed at h ⊢
  rw [hscope, hplace]
  exact h.imp fun b _ hb hopen => hb (hclosed hopen)

/-- What the branches under way will need: their guards have names where the chains stand,
and a chain that gets a further branch is the last statement of its block. -/
def Awaited (ops : Ops) (chains : List Started) : List Purpose → List Block → Prop
  | .first cond :: rest, b :: outer =>
    Available ops (names (b :: outer)) cond.id ∧ Awaited ops chains rest outer
  | .further key index guard :: rest, b :: outer =>
    (∃ front branches, b.body = front ++ [.cond branches] ∧ front.length = index ∧
      Extendable branches) ∧
    (∀ g, guard = some g → Available ops (names (b :: outer)) g) ∧
    (∃ t, chains[key]? = some t ∧ t.scope = b.scope ∧ t.place = index) ∧
    Awaited ops chains rest outer
  | _, _ => True

theorem Awaited.mono {a b : Ops} {chains later : List Started} {purposes : List Purpose}
    (hops : ∀ e op, a e = some op → b e = some op)
    (hchains : ∀ (key : Nat) (t : Started), chains[key]? = some t →
      t.scope ∈ blocks.map Block.scope →
      ∃ u, later[key]? = some u ∧ u.scope = t.scope ∧ u.place = t.place)
    (h : Awaited a chains purposes blocks) : Awaited b later purposes blocks := by
  induction purposes generalizing blocks with
  | nil => trivial
  | cons p rest ih =>
    cases blocks with
    | nil => cases p <;> trivial
    | cons block outer =>
      have hrest (h : Awaited a chains rest outer) : Awaited b later rest outer :=
        ih (fun key t ht hm => hchains key t ht (mem_cons_of_mem _ hm)) h
      cases p with
      | first cond => exact ⟨h.1.mono hops .rfl, hrest h.2⟩
      | further key index guard =>
        obtain ⟨hlast, hguard, ⟨t, ht, hscope, hplace⟩, hmore⟩ := h
        obtain ⟨u, hu, hus, hup⟩ := hchains key t ht (mem_cons.2 (.inl hscope))
        exact ⟨hlast, fun g hg => (hguard g hg).mono hops .rfl,
          ⟨u, hu, hus.trans hscope, hup.trans hplace⟩, hrest hmore⟩

/-- The state of a capture without errors in which chains keep to their blocks. -/
structure Regular (s : Draft) : Prop where
  stack : StackScoped s.recording.ops s.recording.blocks
  unclosed : ∀ t ∈ s.chains, Unclosed t s.recording.blocks
  pending : Awaited s.recording.ops s.chains s.purposes s.recording.outer

theorem regular_start (id : RecordingId) (inputs : List TensorType) :
    (start id inputs).Regular where
  stack := by simp [start, Recording.start, blocks, StackScoped, BlockScoped]
  unclosed := by simp [start]
  pending := trivial

/-- A chain is continued only where its block is the innermost one. -/
def OwnBlock (s : Draft) (c : Call) : Prop :=
  ∀ key ∈ c.continues?, ∀ t ∈ s.chains[key]?, t.scope = s.recording.current.scope

instance (s : Draft) (c : Call) : Decidable (OwnBlock s c) :=
  inferInstanceAs (Decidable (∀ key ∈ c.continues?, ∀ t ∈ s.chains[key]?, _))

theorem Regular.edit {t : Draft} (hs : s.Regular) (hp : s.recording.Placed)
    (h : Edits s.recording t.recording) (hc : t.chains = s.chains) (hpu : t.purposes = s.purposes)
    (he : t.recording.error = none) : t.Regular := by
  have hg := h.grows
  refine ⟨hs.stack.edits hp h he, fun u hu => ?_, ?_⟩
  · obtain ⟨more, hbody⟩ := hg.body
    rw [hc] at hu
    rw [blocks, hg.outer]
    refine Where.replace (hs.unclosed u hu) hg.scope fun hold hopen => ?_
    obtain ⟨branches, hb, hx⟩ := hold hopen
    refine ⟨branches, ?_, hx⟩
    rw [hbody, List.getElem?_append_left (List.getElem?_eq_some_iff.1 hb).1]
    exact hb
  · rw [hc, hpu, hg.outer]
    exact hs.pending.mono hg.ops fun key t ht _ => ⟨t, ht, rfl, rfl⟩

theorem Regular.enter {s : Draft} (hs : s.Regular) (ht : s.Tracks) {cond : Expr}
    (ha : Available s.recording.ops (names s.recording.blocks) cond.id) (e : Option CaptureError) :
    Regular { s with
      recording := (s.recording.note e).openBlock, purposes := .first cond :: s.purposes } where
  stack := ⟨blockScoped_nil, hs.stack⟩
  unclosed t hm := Where.open (hs.unclosed t hm) (ht.scopes t hm)
  pending := ⟨ha, hs.pending⟩

theorem Regular.abandon {s : Draft} (hs : s.Regular) {p : Purpose} (hp : s.purposes = p :: rest)
    {b : Block} {outer : List Block} (ho : s.recording.outer = b :: outer) :
    Regular { s with recording := { s.recording with current := b, outer }, purposes := rest } := by
  have hstack := hs.stack
  have hpending := hs.pending
  rw [blocks, ho] at hstack
  rw [hp, ho] at hpending
  refine ⟨hstack.2, fun t ht => ?_, ?_⟩
  · have hold := hs.unclosed t ht
    rw [blocks, ho] at hold
    exact hold.2
  · cases p with
    | first cond => exact hpending.2
    | further key index guard => exact hpending.2.2.2

theorem Regular.leave_first (hs : s.Regular) (hn : s.Nests) {cond : Expr}
    (hp : s.purposes = .first cond :: rest) (ho : s.recording.outer = b :: outer) :
    (s.complete rest (.first cond)).Regular := by
  have hstack := hs.stack
  have hpending := hs.pending
  rw [blocks, ho] at hstack
  rw [hp, ho] at hpending
  obtain ⟨hbody, hblock, houter⟩ := hstack
  obtain ⟨hguard, hmore⟩ := hpending
  obtain ⟨hnested, -⟩ := hn.close hp ho
  unfold complete
  rw [closeBlock_eq ho]
  refine ⟨⟨blockScoped_append.2 ⟨hblock, blockScoped_singleton.2 ?_⟩, houter⟩, fun u hu => ?_, ?_⟩
  · rw [Stmt.Scoped, BranchesScoped]
    refine ⟨⟨⟨cond.id, rfl⟩, by simp⟩, ?_, hbody, by rw [BranchesScoped]; trivial⟩
    intro g hg
    exact Option.some.inj hg ▸ hguard
  · rcases mem_append.1 hu with hu | hu
    · have hold := hs.unclosed u hu
      rw [blocks, ho] at hold
      refine Where.replace hold.2 rfl fun hold hopen => ?_
      obtain ⟨branches, hb, hx⟩ := hold hopen
      refine ⟨branches, ?_, hx⟩
      exact (List.getElem?_append_left (List.getElem?_eq_some_iff.1 hb).1).trans hb
    · rw [mem_singleton.1 hu]
      refine ⟨fun _ _ => ⟨[.mk (some cond.id) s.recording.current.body], ?_, by simp, ?_⟩, ?_⟩
      · simp [pushChain, pushStmt]
      · intro branch hm
        rw [mem_singleton.1 hm]
        rfl
      · exact where_of_not_mem fun hm => Nat.lt_irrefl _ (hnested.lt _ hm)
  · refine hmore.mono (fun _ _ h => h) fun key t ht _ => ⟨t, ?_, rfl, rfl⟩
    exact (List.getElem?_append_left (List.getElem?_eq_some_iff.1 ht).1).trans ht

theorem Regular.leave_further (hs : s.Regular) (hn : s.Nests) (hd : s.Distinct) {key : Nat}
    (hp : s.purposes = .further key index guard :: rest) (ho : s.recording.outer = b :: outer) :
    (s.complete rest (.further key index guard)).Regular := by
  have hstack := hs.stack
  have hpending := hs.pending
  rw [blocks, ho] at hstack
  rw [hp, ho] at hpending
  obtain ⟨hbody, hblock, houter⟩ := hstack
  obtain ⟨⟨front, branches, hlast, rfl, hx⟩, hguard, ⟨t, ht, htscope, htplace⟩, hmore⟩ := hpending
  obtain ⟨hnested, -⟩ := hn.close hp ho
  have hadd := addBranch_last { s.recording with current := b, outer } hlast guard
    s.recording.current.body
  have hblocks : (s.complete rest (.further key front.length guard)).recording.blocks =
      ⟨b.scope, front ++ [.cond (branches ++ [.mk guard s.recording.current.body])]⟩ :: outer := by
    unfold complete
    rw [closeBlock_eq ho, blocks, outer_addBranch, hadd]
    rfl
  have hops : (s.complete rest (.further key front.length guard)).recording.ops =
      s.recording.ops := by
    unfold complete Recording.ops
    rw [closeBlock_eq ho, (tables_addBranch ..).nodes]
  refine ⟨?_, fun u hu => ?_, ?_⟩
  · rw [hblocks, hops]
    rw [hlast] at hblock
    obtain ⟨hfront, hcond⟩ := blockScoped_append.1 hblock
    have hnames : names (b :: outer) = (names outer).afterAll front := by
      rw [names, hlast, Names.afterAll_append]
      rfl
    rw [hnames] at hbody hguard
    rw [blockScoped_singleton, Stmt.Scoped] at hcond
    refine ⟨blockScoped_append.2 ⟨hfront, blockScoped_singleton.2 ?_⟩, houter⟩
    rw [Stmt.Scoped]
    refine ⟨hx.proper guard _, branchesScoped_append.2 ⟨hcond.2, ?_⟩⟩
    rw [BranchesScoped, BranchesScoped]
    exact ⟨hguard, hbody, trivial⟩
  · obtain ⟨i, hi⟩ := mem_iff_getElem?.1 hu
    obtain ⟨v, hv, hscope, hplace, -, -, hclosed⟩ := getElem?_complete hi
    have hold := hs.unclosed v (mem_of_getElem? hv)
    rw [blocks, ho] at hold
    rw [hblocks]
    refine ⟨fun hus hopen => ?_, ?_⟩
    · obtain ⟨hvopen, hkey⟩ := hclosed hopen
      have hvs : v.scope = b.scope := hscope.symm.trans hus
      obtain ⟨old, hb, hxold⟩ := hold.2.1 hvs hvopen
      rw [hplace]
      by_cases hvp : v.place = front.length
      · have hik : i = key := by
          refine hd i key v t hv ht (hvs.trans htscope.symm) ?_ (hvp.trans htplace.symm)
          exact mem_scopes_of_close ho (mem_cons.2 (.inl hvs))
        obtain ⟨g, rfl⟩ := Option.ne_none_iff_exists'.1 (hkey hik)
        rw [hvp]
        exact ⟨_, getElem?_concat_length, hx.snoc g _⟩
      · have hlt : v.place < front.length := by
          have hlen := (List.getElem?_eq_some_iff.1 hb).1
          rw [hlast, length_append, length_singleton] at hlen
          omega
        refine ⟨old, ?_, hxold⟩
        rw [hlast, List.getElem?_append_left hlt] at hb
        exact (List.getElem?_append_left hlt).trans hb
    · exact Unclosed.congr hold.2.2 hscope hplace fun hopen => (hclosed hopen).1
  · rw [hops, show (s.complete rest (.further key front.length guard)).recording.outer = outer from
      (List.cons.inj hblocks).2]
    exact hmore.mono (fun _ _ h => h) fun i u hu _ => exists_getElem?_complete hu

theorem Regular.resume {s : Draft} (hs : s.Regular) (hn : s.Nests) (ht : s.Tracks) {key place : Nat}
    {w : Started} {e : Option CaptureError} {q : Recording}
    (hown : w.scope = s.recording.current.scope) (hw : s.chains[key]? = some w)
    (hopen : w.chain.closed = false)
    (hguard : ∀ g, guard = some g → Available s.recording.ops (names s.recording.blocks) g)
    (hq : (s.recording.note e).reopen w.chain.depth w.chain.index guard = .ok (place, q)) :
    Regular { s with
      recording := q.openBlock
      chains := (s.chains.map (Started.follow q.current.scope w.chain.index place)).modify key
        fun u => { u with chain := { w.chain with index := place } }
      purposes := .further key place guard :: s.purposes } := by
  obtain ⟨-, before, chain, bound, sealed, hr⟩ := reopened_of_reopen hq
  have hwm := mem_of_getElem? hw
  -- The chain stands in front of bindings only, so it is the one that moves.
  obtain ⟨-, hle, -⟩ := (ht.standing w hwm).1 hown
  obtain ⟨branches, hb, hx⟩ := (hs.unclosed w hwm).1 hown hopen
  have hplace : w.place = w.chain.index := Nat.le_antisymm (place_le_of_getElem?_cond hr hb) hle
  have hscope : q.current.scope = s.recording.current.scope := hr.scope
  have hbody : s.recording.current.body = before ++ chain :: bound.map Stmt.bind := hr.body
  have hchain : chain = .cond branches := by
    rw [hbody, hplace, ← hr.length] at hb
    simpa using hb
  subst hchain
  have hops : q.ops = s.recording.ops := hr.ops
  have hnames : (names s.recording.blocks).Within (names q.blocks) := hr.names
  have houter : q.outer = s.recording.outer := hr.outer
  have hlast : q.current.body = (before ++ bound.map Stmt.bind) ++ [.cond branches] := by
    rw [hr.current]
  have hstack : StackScoped q.ops q.blocks := by
    rw [hops, blocks, houter]
    refine ⟨?_, hs.stack.2⟩
    rw [hlast]
    exact BlockScoped.reorder (hbody ▸ hs.stack.1)
  have hfollow (u : Started) (hu : u ∈ s.chains) :
      Unclosed (u.follow q.current.scope w.chain.index place) q.blocks := by
    rw [hscope, blocks, houter]
    by_cases hus : u.scope = s.recording.current.scope
    · refine ⟨fun _ huopen => ?_, where_of_not_mem ?_⟩
      · rw [chain_follow] at huopen
        obtain ⟨branches, hb, hx⟩ := (hs.unclosed u hu).1 hus huopen
        exact ⟨branches, (getElem?_follow hr hus hb).2, hx⟩
      · rw [scope_follow, hus]
        exact fun hm => Nat.lt_irrefl _ (hn.nested.lt _ hm)
    · have hsame : u.follow s.recording.current.scope w.chain.index place = u := if_neg hus
      rw [hsame]
      exact ⟨fun hc => absurd (hc.trans hscope) hus, (hs.unclosed u hu).2⟩
  refine ⟨⟨blockScoped_nil, hstack⟩, fun u hu => ?_, ⟨_, branches, hlast, ?_, hx⟩, ?_, ?_, ?_⟩
  · rcases mem_modify hu with hu | ⟨y, hy, rfl⟩
    · obtain ⟨v, hv, rfl⟩ := mem_map.1 hu
      refine Where.open (hfollow v hv) ?_
      rw [scope_follow]
      exact Nat.lt_of_lt_of_le (ht.scopes v hv) hr.parents_le
    · rw [getElem?_map, hw] at hy
      cases hy
      refine Where.open ((hfollow w hwm).congr rfl rfl ?_) ?_
      · rw [chain_follow]
        exact fun h => h
      · dsimp only
        rw [scope_follow]
        exact Nat.lt_of_lt_of_le (ht.scopes w hwm) hr.parents_le
  · rw [hr.place, length_append, length_map]
  · intro g hg
    exact (hguard g hg).mono (fun _ _ h => hops ▸ h) hnames
  · refine ⟨{ w.follow q.current.scope w.chain.index place with
      chain := { w.chain with index := place } }, ?_, ?_, ?_⟩
    · simp [hw]
    · rw [scope_follow, hown, hscope]
    · simp [Started.follow, hscope, hown, hplace]
  · rw [show q.openBlock.ops = s.recording.ops from hops, houter]
    refine hs.pending.mono (fun _ _ h => h) fun i u hu hm => ?_
    have hne : u.scope ≠ q.current.scope := fun he =>
      Nat.lt_irrefl _ (hscope ▸ he ▸ hn.nested.lt _ hm)
    refine ⟨u, (getElem?_followed ?_ hw (hown.trans hscope.symm) hne).2 hu, rfl, rfl⟩
    exact fun _ => rfl

theorem Move.regular {t : Draft} (h : Move s c t) (hown : OwnBlock s c) (hn : s.Nests)
    (ht : s.Tracks) (hd : s.Distinct) (hp : s.recording.Placed) (hs : s.Regular)
    (he : t.recording.error = none) : t.Regular := by
  cases h with
  | edit hedits hc hpu => exact hs.edit hp hedits hc hpu he
  | enter _ hx =>
    have hu := usable_of_operandError? hx (note_error_eq_none_iff.1 he).2
    exact hs.enter ht (hp.available hu.2) _
  | resume hc hw hopen _ hguard hq =>
    obtain ⟨-, before, chain, bound, sealed, hr⟩ := reopened_of_reopen hq
    refine hs.resume hn ht (hown _ hc _ hw) hw hopen (fun g hg => ?_) hq
    exact hp.available (hguard g hg (hr.keeps.error he))
  | @leave p rest _ hpu =>
    obtain ⟨b, outer, ho⟩ := hn.outer_eq hpu
    cases p with
    | first cond => exact hs.leave_first hn hpu ho
    | further key index guard => exact hs.leave_further hn hd hpu ho
  | abandon _ hpu =>
    obtain ⟨b, outer, ho⟩ := hn.outer_eq hpu
    rw [closeBlock_eq ho]
    exact hs.abandon hpu ho

/-- Everything that is known of such a capture, whether errors are noted or not. -/
structure Orderly (s : Draft) : Prop where
  holds : s.Holds
  nests : s.Nests
  tracks : s.Tracks
  distinct : s.Distinct
  placed : s.recording.Placed
  regular : s.recording.error = none → s.Regular

theorem orderly_start (id : RecordingId) (inputs : List TensorType) : (start id inputs).Orderly where
  holds := holds_start id inputs
  nests := nests_start id inputs
  tracks := tracks_start id inputs
  distinct := distinct_start id inputs
  placed := placed_start id inputs
  regular _ := regular_start id inputs

theorem Move.orderly {t : Draft} (h : Move s c t) (hown : OwnBlock s c) (hs : s.Orderly) :
    t.Orderly where
  holds := h.holds hs.holds
  nests := h.nests hs.nests
  tracks := h.tracks hs.nests hs.tracks
  distinct := h.distinct hs.nests hs.tracks hs.distinct
  placed := h.placed hs.nests hs.placed
  regular he := h.regular hown hs.nests hs.tracks hs.distinct hs.placed
    (hs.regular (h.keeps.error he)) he

theorem Leads.orderly {id : RecordingId} {inputs : List TensorType}
    (h : Leads OwnBlock (start id inputs) s) : s.Orderly :=
  h.invariant (holds_start id inputs) (orderly_start id inputs) fun _ _ _ _ hs hown hm =>
    hm.orderly hown hs

/-- The code of a finished graph mentions only names that are known where they stand, and
its conditional statements are proper, whatever errors were ignored on the way, if chains
were continued in their own blocks only. -/
theorem finish_code_scoped {id : RecordingId} {inputs : List TensorType} {s : Draft}
    (h : Leads OwnBlock (start id inputs) s) {name : String} {returned : List OutputTensor}
    {g : Graph} (hg : s.recording.finish name returned = .ok g) :
    Code.CommandsScoped .none g.code := by
  have hfin := finished_of_finish hg
  have hreg := h.orderly.regular hfin.error
  have hordered : g.Ordered := by
    rw [hfin.graph]
    exact (h.typed (holds_start id inputs) (typed_start id inputs) hfin.error).1.operands
  refine Graph.scoped_code hordered ?_
  have hstack := hreg.stack
  rw [blocks, hfin.outer] at hstack
  rw [hfin.graph]
  exact hstack.1.mapOutputs _

/-- The sign of the elements, kept in a variable that two branches of a chain assign. -/
def signs : List Call :=
  let vector : TensorType := ⟨⟨[2]⟩, .f32⟩
  let x : Expr := ⟨1, 1, .f32⟩
  let sign : Variable := ⟨1, 0, .f32⟩
  [.outputLike vector, .positionIn ⟨[2]⟩, .element ⟨1, 0, vector⟩ [.expr ⟨1, 0, .i64⟩],
    .declare (.literal (.int 0)) .f32, .binary .gt x (.literal (.int 0)), .branch ⟨1, 4, .bool⟩,
    .assign sign (.literal (.int 1)), .leave, .binary .lt x (.literal (.int 0)),
    .elif 0 ⟨1, 7, .bool⟩, .assign sign (.literal (.int (-1))), .leave, .get sign,
    .store ⟨1, 0, vector⟩ [.expr ⟨1, 0, .i64⟩] (.expr ⟨1, 9, .f32⟩)]

theorem finish_code_scoped_signs :
    let vector : TensorType := ⟨⟨[2]⟩, .f32⟩
    let s := (start 1 [vector]).performAll signs
    ∃ g, s.recording.finish "signs" [⟨1, 0, vector⟩] = .ok g ∧
      Code.CommandsScoped .none g.code := by
  intro vector s
  have hs : Leads OwnBlock (start 1 [vector]) s := leads_performAll (by decide +kernel)
  have hok : (s.recording.finish "signs" [⟨1, 0, vector⟩]).isOk = true := by decide +kernel
  cases hf : s.recording.finish "signs" [⟨1, 0, vector⟩] with
  | ok g => exact ⟨g, rfl, finish_code_scoped hs hf⟩
  | error e =>
    rw [hf] at hok
    cases hok

end Draft
end TensorKernel
