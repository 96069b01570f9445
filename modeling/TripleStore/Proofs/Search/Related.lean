import Mathlib.Data.Set.Card
import TripleStore.Proofs.Fields
import TripleStore.Proofs.Scope
import TripleStore.Proofs.Search.Join
import TripleStore.Proofs.Search.Paths

/-!
# Questions about a transitive closure

A question which terms an attribute relates gives each end, or asks for it under a name (`Endpoint`, `Query.related`).
About a transitive closure it is answered exactly (**`Store.Closes.rows_related`**): each two terms that it is about are
reported once for each path between them. Its rows come to their end, since the resolver is exhausted
(`Store.Closes.stop_length`), and are then counted by the ways to meet its pattern; these are the paths that it is about
(`Store.Closes.possible_related`), as proofs are paths. The order of the rows, which depends on where the rules stand
among the facts, is left open.
-/

namespace TripleStore

open Term Relation

/-! ### Questions about a relation -/

/-- One end of a question about a relation. -/
inductive Endpoint where
  /-- Any term, to be reported under a name. -/
  | any (name : String)
  /-- The given term. -/
  | given (t : Term)

namespace Endpoint

/-- The term that stands for the end in a pattern; a name gets a variable. -/
def place (scope : Scope) : Endpoint → Term × Scope
  | any name => (.var (scope.var name).1, (scope.var name).2)
  | given t => (t, scope)

/-- The question is about the term at this end. -/
def Admits : Endpoint → Term → Prop
  | any _, _ => True
  | given t, u => t = u

instance : (e : Endpoint) → DecidablePred e.Admits
  | any _ => fun _ => inferInstanceAs (Decidable True)
  | given t => fun u => inferInstanceAs (Decidable (t = u))

/-- What is reported of the term at this end. -/
def fields : Endpoint → Term → List (String × Term)
  | any name, u => [(name, u)]
  | given _, _ => []

/-- A term that is given has no variables. -/
def Ground : Endpoint → Prop
  | any _ => True
  | given t => t.isGround = true

/-- The term stands for the end, and the second scope has what the first has and the name of the end, if any. -/
structure Placed (e : Endpoint) (scope : Scope) (a : Term) (scope' : Scope) : Prop where
  named : ∃ xs, scope'.named = scope.named ++ xs ∧ (∀ x ∈ xs, x.2 ∈ a.vars) ∧
    ∀ τ : Nat → Term, (xs.map fun x => (x.1, τ x.2)) = e.fields (a.subst τ)
  size_le : scope.size ≤ scope'.size
  below : ∀ v ∈ a.vars, v < scope'.size
  admits : ∀ τ, e.Admits (a.subst τ)
  exists_subst : ∀ (τ : Nat → Term) (x : Term), e.Admits x → ∃ τ', (∀ v < scope.size, τ' v = τ v) ∧ a.subst τ' = x

theorem placed {e : Endpoint} {scope : Scope} (hground : e.Ground)
    (hnew : ∀ name, e = .any name → some name ∉ scope.names) : e.Placed scope (e.place scope).1 (e.place scope).2 := by
  cases e with
  | any name =>
    have hvar : scope.var name = (scope.size, ⟨scope.names ++ [some name]⟩) := by
      rcases scope.var_cases name with ⟨v, hv, -⟩ | ⟨-, hvar⟩
      · exact absurd (List.mem_of_getElem? hv) (hnew name rfl)
      · exact hvar
    rw [place, hvar]
    refine ⟨⟨[(name, scope.size)], ?_, ?_, fun τ => rfl⟩, ?_, ?_, fun _ => trivial, fun τ x _ => ?_⟩
    · simp [Scope.named, Scope.size, List.zipIdx_append]
    · simp
    · simp [Scope.size]
    · simp [Scope.size]
    · exact ⟨fun v => if v = scope.size then x else τ v, fun v hv => if_neg hv.ne, if_pos rfl⟩
  | given t =>
    have hsubst (τ : Nat → Term) : t.subst τ = t := subst_of_isGround hground τ
    have hnone : scope.named = scope.named ++ [] := (List.append_nil _).symm
    refine ⟨⟨[], hnone, by simp, fun τ => rfl⟩, le_rfl, fun v hv => ?_, fun τ => ?_, fun τ x hx => ?_⟩
    · exact absurd hv (isGround_iff.1 hground v)
    · exact (hsubst τ).symm
    · exact ⟨τ, fun _ _ => rfl, (hsubst τ).trans hx⟩

/-- Terms for two ends, of which the second has been placed after the first, stand for all terms that the ends admit. -/
theorem Placed.exists_subst_iff {source target : Endpoint} {scope scope' scope'' : Scope} {a b x y : Term}
    (ha : source.Placed scope a scope') (hb : target.Placed scope' b scope'') :
    (∃ τ, a.subst τ = x ∧ b.subst τ = y) ↔ source.Admits x ∧ target.Admits y := by
  constructor
  · rintro ⟨τ, rfl, rfl⟩
    exact ⟨ha.admits τ, hb.admits τ⟩
  · rintro ⟨hx, hy⟩
    obtain ⟨τ, -, hτ⟩ := ha.exists_subst (fun _ => x) x hx
    obtain ⟨τ', heq, hτ'⟩ := hb.exists_subst τ y hy
    -- the second end leaves the variable of the first one alone
    refine ⟨τ', ?_, hτ'⟩
    rw [← hτ]
    exact subst_congr fun v hv => heq v (ha.below v hv)

/-- The row that reports two terms. -/
def row (source target : Endpoint) (x y : Term) : Row := ⟨Fields.ofList (source.fields x ++ target.fields y)⟩

end Endpoint

/-- The question which terms an attribute relates, with the given ends. -/
def Query.related (attr : Term) (source target : Endpoint) : Except Invalid Query :=
  let (a, scope) := source.place .empty
  let (b, scope) := target.place scope
  Query.ofGoals? scope [.pattern ⟨a, attr, b⟩]

variable {st : Store} {p r a b : Term} {source target : Endpoint} {query : Query}

/-- The query asks which terms the attribute relates; `a` and `b` stand for the ends. -/
structure Query.AsksRelated (query : Query) (attr : Term) (source target : Endpoint) (a b : Term) : Prop where
  goals : query.goals = [.pattern ⟨a, attr, b⟩]
  scope : ∀ x ∈ query.vars, x.2 < query.scope
  shown : ∀ x ∈ query.vars, x.2 ∈ (⟨a, attr, b⟩ : Triple).vars
  fields : ∀ τ : Nat → Term,
    (query.vars.map fun x => (x.1, τ x.2)) = source.fields (a.subst τ) ++ target.fields (b.subst τ)
  admits : ∀ x y, (∃ τ, a.subst τ = x ∧ b.subst τ = y) ↔ source.Admits x ∧ target.Admits y

theorem Query.exists_related (hr : r.isGround = true) (hsource : source.Ground) (htarget : target.Ground)
    (hnames : ∀ name, source = .any name → target ≠ .any name) :
    ∃ query a b, Query.related r source target = .ok query ∧ query.AsksRelated r source target a b := by
  have hnew : ∀ name, target = .any name → some name ∉ (source.place .empty).2.names := by
    rintro name rfl
    cases source with
    | any other =>
      intro hmem
      obtain rfl : name = other := Option.some.inj (List.mem_singleton.1 hmem)
      exact hnames name rfl rfl
    | given t => exact List.not_mem_nil
  have ha : source.Placed .empty _ _ := Endpoint.placed hsource fun _ _ => List.not_mem_nil
  have hb := Endpoint.placed htarget hnew
  generalize hplace : source.place .empty = place at ha hb
  obtain ⟨a, scope⟩ := place
  dsimp only at ha hb
  generalize hplace' : target.place scope = place' at hb
  obtain ⟨b, scope'⟩ := place'
  have hinScope : ∀ g ∈ [Goal.pattern ⟨a, r, b⟩], ∀ v ∈ g.vars, v < scope'.size := by
    intro g hg v hv
    obtain rfl := List.mem_singleton.1 hg
    rcases Triple.mem_vars.1 hv with hv | hv | hv
    · exact (ha.below v hv).trans_le hb.size_le
    · exact absurd hv (isGround_iff.1 hr v)
    · exact hb.below v hv
  obtain ⟨query, hquery⟩ := Query.exists_ofGoals? hinScope
  obtain ⟨hgoals, hvars, -⟩ := Query.ofGoals?_eq_ok hquery
  obtain ⟨xs, hxs, hshown, hfields⟩ := ha.named
  obtain ⟨ys, hys, hshown', hfields'⟩ := hb.named
  have hnamed : query.vars = xs ++ ys := by rw [hvars, hys, hxs]; rfl
  have hrelated : Query.related r source target = .ok query := by
    rw [Query.related, hplace]
    dsimp only
    rw [hplace']
    exact hquery
  refine ⟨query, a, b, hrelated, hgoals, Query.vars_lt_scope hquery, ?_, fun τ => ?_,
    fun x y => ha.exists_subst_iff hb⟩
  · rw [hnamed]
    exact List.forall_mem_append.2 ⟨fun x hx => Triple.mem_vars.2 (.inl (hshown x hx)),
      fun x hx => Triple.mem_vars.2 (.inr (.inr (hshown' x hx)))⟩
  · rw [hnamed, List.map_append, hfields, hfields']

/-! ### Its rows -/

variable {st : Store} {s : Bindings} {n : Nat} {x y : Term} {is : List Nat}

/-- A solution that makes the pattern one ground triple has the row of this triple. -/
theorem Query.AsksRelated.row?_eq (h : query.AsksRelated r source target a b) {u : Triple} (hu : u.isGround = true)
    (hs : s.Acyclic) (hmeaning : s.meaning n = {τ | (⟨a, r, b⟩ : Triple).map (subst τ) = u}) :
    query.row? s = some (Endpoint.row source target u.entity u.value) := by
  have hvalue : (⟨a, r, b⟩ : Triple).map (subst s.value) = u := by
    have hmem : s.value ∈ s.meaning n := ⟨s.value, hs.respectedBy_value, fun _ _ => rfl⟩
    rwa [hmeaning] at hmem
  have hground : ∀ x ∈ query.vars, (s.reify (.var x.2)).isGround = true := by
    intro x hx
    rw [Bindings.reify_eq_subst]
    refine isGround_iff.2 fun v hv => ?_
    have hmem : v ∈ u.vars := hvalue ▸ Triple.mem_vars_map_subst.2 ⟨x.2, h.shown x hx, hv⟩
    exact Triple.notMem_vars_of_isGround hu v hmem
  rw [Query.row?, Row.decode_eq_ok hground, ← hvalue]
  simp only [Bindings.reify_eq_subst]
  exact congrArg (fun fields => some (Row.mk (Fields.ofList fields))) (h.fields s.value)

namespace Endpoint

/-- A row tells which terms it is about. -/
theorem row_injective (hnames : ∀ name, source = .any name → target ≠ .any name) {x' y' : Term}
    (hx : source.Admits x) (hx' : source.Admits x') (hy : target.Admits y) (hy' : target.Admits y')
    (h : row source target x y = row source target x' y') : x = x' ∧ y = y' := by
  have hget (name : String) := congrArg (fun row : Row => row.fields.get? name) h
  cases source with
  | any name =>
    cases target with
    | any other =>
      have hne : name ≠ other := fun heq => hnames name rfl (heq ▸ rfl)
      constructor
      · simpa [row, fields, Fields.ofList, Fields.get?_insert, hne] using hget name
      · simpa [row, fields, Fields.ofList, Fields.get?_insert] using hget other
    | given u => exact ⟨by simpa [row, fields, Fields.ofList, Fields.get?_insert] using hget name, hy.symm.trans hy'⟩
  | given t =>
    cases target with
    | any other =>
      exact ⟨hx.symm.trans hx', by simpa [row, fields, Fields.ofList, Fields.get?_insert] using hget other⟩
    | given u => exact ⟨hx.symm.trans hx', hy.symm.trans hy'⟩

end Endpoint

/-- The paths between two terms are as many as the walks between them. -/
theorem Walk.encard_positions {walks : List Walk} (h : walks.Nodup) (x y : Term) :
    {is | ⟨x, is, y⟩ ∈ walks}.encard = (walks.countP fun w => w.source = x ∧ w.target = y) := by
  have hpositions : {is | ⟨x, is, y⟩ ∈ walks}
      = (((walks.filter fun w => w.source = x ∧ w.target = y).map positions).toFinset : Set (List Nat)) := by
    ext is
    simp only [List.coe_toFinset, List.mem_map, List.mem_filter, Set.mem_ofPred_eq, decide_eq_true_eq]
    constructor
    · intro h
      exact ⟨⟨x, is, y⟩, ⟨h, rfl, rfl⟩, rfl⟩
    · rintro ⟨w, ⟨h, rfl, rfl⟩, rfl⟩
      exact h
  have hnodup : ((walks.filter fun w => w.source = x ∧ w.target = y).map positions).Nodup := by
    refine (h.filter _).map_on fun v hv w hw heq => ?_
    obtain ⟨rfl, rfl⟩ := of_decide_eq_true (List.mem_filter.1 hv).2
    obtain ⟨hsource, htarget⟩ := of_decide_eq_true (List.mem_filter.1 hw).2
    obtain ⟨source, positions, target⟩ := w
    obtain rfl := heq
    obtain rfl := hsource
    obtain rfl := htarget
    rfl
  rw [hpositions, Set.encard_coe_eq_coe_finsetCard, List.toFinset_card_of_nodup hnodup, List.length_map,
    List.countP_eq_length_filter]

namespace Store

theorem Path.isGround (h : st.Path p x is y) : x.isGround = true ∧ y.isGround = true := by
  have hedge {i : Nat} {x y : Term} (h : st.EdgeAt p i x y) : x.isGround = true ∧ y.isGround = true := by
    obtain ⟨ground, -⟩ := h
    obtain ⟨hx, -, hy⟩ := Triple.isGround_iff.1 ground
    exact ⟨hx, hy⟩
  induction h with
  | edge h => exact hedge h
  | cons h _ ih => exact ⟨(hedge h).1, ih.2⟩

/-- The rules of such a store are range-restricted. -/
theorem Closes.rangeRestricted (h : st.Closes p r) : ∀ rule, .rule rule ∈ st.entries → rule.RangeRestricted := by
  intro rule hmem
  have hr (v : Nat) : v ∉ r.vars := isGround_iff.1 h.ground' v
  rcases h.mem_cases hmem with ⟨_, ⟨⟩, ⟨x, y, -, hhead, hbody⟩ | ⟨x, y, z, -, -, -, hhead, hbody⟩⟩ | ⟨_, _, ⟨⟩, -⟩
  · rw [Rule.rangeRestricted_iff, hhead, hbody]
    simp [Guarded, Triple.toList, Triple.mem_vars, hr]
  · rw [Rule.rangeRestricted_iff, hhead, hbody]
    simp [Guarded, Triple.toList, Triple.mem_vars, hr]

/-- No solution of a question about `r` is dropped. -/
theorem Closes.incomplete_notMem_reported (h : st.Closes p r) (hquery : query.AsksRelated r source target a b)
    (mode : Retrieval) (k : Nat) (name : String) :
    .incomplete name ∉ Step.reported (Rows.step st mode query) k (Rows.start query) := by
  have hchecks : Goal.ChecksBound query.goals := by
    rw [hquery.goals]
    intro before c after heq
    have hmem : Goal.check c ∈ [Goal.pattern ⟨a, r, b⟩] := by
      rw [heq]
      exact List.mem_append_right _ List.mem_cons_self
    cases List.mem_singleton.1 hmem
  refine Rows.incomplete_notMem_reported h.rangeRestricted hchecks mode k (fun x hx => ?_) name
  rw [hquery.goals]
  exact ⟨_, List.mem_singleton_self _, hquery.shown x hx⟩

/-- **A question about `r` is met in as many ways as there are paths** that it is about. -/
theorem Closes.possible_related (h : st.Closes p r) (hquery : query.AsksRelated r source target a b) (n d : Nat) :
    possible (Bindings.empty.meaning n) (Goal.waysAll (st.proofs (d + 1)) query.goals)
      = (((st.walks p d).filter fun w => source.Admits w.source ∧ target.Admits w.target).map fun w =>
          {τ | (⟨a, r, b⟩ : Triple).map (subst τ) = w.triple r} : List (Set (Nat → Term))) := by
  have hasked (u : Triple) : {τ | (⟨a, r, b⟩ : Triple).map (subst τ) = u}.Nonempty ↔
      u.attr = r ∧ source.Admits u.entity ∧ target.Admits u.value := by
    rw [← hquery.admits]
    constructor
    · rintro ⟨τ, hτ⟩
      obtain ⟨hentity, hattr, hvalue⟩ := (Triple.map_subst_eq_iff h.ground').1 hτ
      exact ⟨hattr.symm, τ, hentity, hvalue⟩
    · rintro ⟨hattr, τ, hentity, hvalue⟩
      exact ⟨τ, (Triple.map_subst_eq_iff h.ground').2 ⟨hentity, hattr.symm, hvalue⟩⟩
  rw [hquery.goals, Bindings.meaning_empty, (h.proves_proofs d).possible_waysAll]
  simp only [Set.univ_inter, Goal.waysAll_nil, possible_univ_eq_ite (hasked _)]
  rw [← Multiset.bind_filter, Multiset.bind_singleton, h.filter_proved_attr, Multiset.map_coe, List.map_map]
  rfl

/-- The rows of a question about `r` come to their end, and there is one for each path that the question is about. -/
theorem Closes.exists_rows (h : st.Closes p r) (hquery : query.AsksRelated r source target a b) (mode : Retrieval) :
    ∃ rows, ∃ walks : List Walk, Step.Exhausts (Rows.step st mode query) (Rows.start query) rows ∧ walks.Nodup ∧
      (∀ w : Walk, w ∈ walks ↔
        st.Path p w.source w.positions w.target ∧ source.Admits w.source ∧ target.Admits w.target) ∧
        rows.Perm (walks.map fun w => Endpoint.row source target w.source w.target) := by
  have hstop : (st.resolve .fullScan (st.facts.length + 3) .empty query.scope query.goals).stop = .exhausted := by
    rw [hquery.goals]
    exact h.stop_length a b query.scope
  have hexhausts : Step.Exhausts (Rows.step st mode query) (Rows.start query) _ :=
    (Rows.exhausts_iff_resolve h.reachable hquery.scope).2 ⟨_, hstop, rfl⟩
  obtain ⟨d, hd⟩ := Rows.exists_counts h.reachable hquery.scope hexhausts
  obtain ⟨as, hcounts, hrows⟩ := hd (max d st.facts.length + 1) (by omega)
  rw [h.possible_related hquery] at hcounts
  have hpath {w : Walk} : w ∈ st.walks p (max d st.facts.length) ↔ st.Path p w.source w.positions w.target :=
    mem_walks_length_iff h.acyclic (Nat.le_max_right d _)
  refine ⟨_, _, hexhausts, (nodup_walks st p (max d st.facts.length)).filter
    (fun w => source.Admits w.source ∧ target.Admits w.target), fun w => ?_, ?_⟩
  · rw [List.mem_filter, hpath, decide_eq_true_iff]
  · rw [hrows, ← List.filterMap_eq_map]
    refine Query.rows_perm_of_counts hcounts fun w hw s hs hmeaning => ?_
    obtain ⟨hx, hy⟩ := (hpath.1 (List.mem_filter.1 hw).1).isGround
    exact hquery.row?_eq (Triple.isGround_iff.2 ⟨hx, h.ground', hy⟩) hs hmeaning

/-- **Questions about a transitive closure are answered exactly.** A question about `r` has a query, however the ends
are given. In either mode its rows come to their end without an error, and no solution is reported as incomplete. Each
two terms that the question is about are reported once for each path between them, a path being told by the positions
of its facts, so that what is reported is the transitive closure. -/
theorem Closes.rows_related (h : st.Closes p r) (hsource : source.Ground) (htarget : target.Ground)
    (hnames : ∀ name, source = .any name → target ≠ .any name) (mode : Retrieval) :
    ∃ query rows, Query.related r source target = .ok query ∧
      Step.Exhausts (Rows.step st mode query) (Rows.start query) rows ∧
      (∀ k name, .incomplete name ∉ Step.reported (Rows.step st mode query) k (Rows.start query)) ∧
      (∀ x y, source.Admits x → target.Admits y →
        rows.count (Endpoint.row source target x y) = {is | st.Path p x is y}.encard) ∧
      ∀ row, row ∈ rows ↔
        ∃ x y, TransGen (st.Edge p) x y ∧ source.Admits x ∧ target.Admits y ∧ row = Endpoint.row source target x y := by
  obtain ⟨query, a, b, hrelated, hquery⟩ := Query.exists_related h.ground' hsource htarget hnames
  obtain ⟨rows, walks, hexhausts, hnodup, hwalks, hperm⟩ := h.exists_rows hquery mode
  refine ⟨query, rows, hrelated, hexhausts, h.incomplete_notMem_reported hquery mode, fun x y hx hy => ?_,
    fun row => ?_⟩
  · have hpaths : {is | st.Path p x is y} = {is | ⟨x, is, y⟩ ∈ walks} := by
      ext is
      exact ((hwalks ⟨x, is, y⟩).trans (and_iff_left ⟨hx, hy⟩)).symm
    rw [hpaths, Walk.encard_positions hnodup, hperm.count_eq, List.count_eq_countP, List.countP_map]
    refine congrArg _ (List.countP_congr fun w hw => ?_)
    obtain ⟨-, hx', hy'⟩ := (hwalks w).1 hw
    simp only [Function.comp_apply, beq_iff_eq, decide_eq_true_iff]
    constructor
    · exact Endpoint.row_injective hnames hx' hx hy' hy
    · rintro ⟨rfl, rfl⟩
      rfl
  · rw [hperm.mem_iff, List.mem_map]
    simp only [← exists_path_iff]
    constructor
    · rintro ⟨w, hw, rfl⟩
      obtain ⟨hpath, hx, hy⟩ := (hwalks w).1 hw
      exact ⟨_, _, ⟨_, hpath⟩, hx, hy, rfl⟩
    · rintro ⟨x, y, ⟨is, hpath⟩, hx, hy, rfl⟩
      exact ⟨⟨x, is, y⟩, (hwalks _).2 ⟨hpath, hx, hy⟩, rfl⟩

end Store

/-! ### An example -/

/-- The ancestors of a parent are ancestors. -/
def Rule.ancestorThrough : Rule where
  name? := none
  head := ⟨.var 0, .str "ancestor", .var 1⟩
  body := [.pattern ⟨.var 0, .str "parent", .var 2⟩, .pattern ⟨.var 2, .str "ancestor", .var 1⟩]
  varCount := 3
  inScope := by decide

/-- A family that says twice that Ann is a parent of Bob, with rules among the facts. -/
def Store.lineage : Store :=
  (((((Store.withReferences [.str "parent"]).push (.fact .annBob Triple.isGround_annBob)).addRule .ancestorThrough).push
    (.fact .annBob Triple.isGround_annBob)).addRule .ancestor).push (.fact .bobCid Triple.isGround_bobCid)

theorem Store.reachable_lineage : lineage.Reachable :=
  .addFact (.addRule _ (.addFact (.addRule _ (.addFact (.withReferences _) (t := .annBob) rfl)) (t := .annBob) rfl))
    (t := .bobCid) rfl

theorem Store.acyclic_lineage : ∀ x, ¬TransGen (lineage.Edge (.str "parent")) x x := by
  let age (t : Term) : Nat := if t = .str "ann" then 2 else if t = .str "bob" then 1 else 0
  have hyounger : ∀ x y, lineage.Edge (.str "parent") x y → age y < age x := by
    intro x y h
    have hmem : ⟨x, .str "parent", y⟩ ∈ [Triple.annBob, .annBob, .bobCid] := edge_iff_mem_facts.1 h
    simp only [List.mem_cons, List.not_mem_nil, or_false, Triple.annBob, Triple.bobCid, Triple.mk.injEq] at hmem
    rcases hmem with ⟨rfl, -, rfl⟩ | ⟨rfl, -, rfl⟩ | ⟨rfl, -, rfl⟩ <;> decide
  intro x hx
  have hlt : TransGen (· > ·) (age x) (age x) := hx.lift age hyounger
  rw [transGen_eq_self] at hlt
  exact lt_irrefl _ hlt

theorem Store.closes_lineage : lineage.Closes (.str "parent") (.str "ancestor") where
  reachable := reachable_lineage
  ground := rfl
  ground' := rfl
  ne := by decide
  entries := by
    let annBob : Entry := .fact .annBob Triple.isGround_annBob
    let bobCid : Entry := .fact .bobCid Triple.isGround_bobCid
    refine ⟨.ancestor, .ancestorThrough, [annBob, annBob, bobCid], ⟨0, 1, by decide, rfl, rfl⟩,
      ⟨0, 1, 2, by decide, by decide, by decide, rfl, rfl⟩, ?_, ?_⟩
    · show List.Perm ([annBob, .rule .ancestorThrough, annBob] ++ .rule .ancestor :: [bobCid]) _
      exact List.perm_middle.trans (.cons _ (.swap _ _ _))
    · have hannBob : ∃ t ground, annBob = .fact t ground ∧ t.attr ≠ .str "ancestor" := ⟨_, _, rfl, by decide⟩
      have hbobCid : ∃ t ground, bobCid = .fact t ground ∧ t.attr ≠ .str "ancestor" := ⟨_, _, rfl, by decide⟩
      exact List.forall_mem_cons.2 ⟨hannBob, List.forall_mem_cons.2 ⟨hannBob, List.forall_mem_singleton.2 hbobCid⟩⟩
  acyclic := acyclic_lineage

/-- Among the descendants of Ann is Cid. -/
theorem Store.Closes.rows_related_lineage : ∃ query rows,
    Query.related (.str "ancestor") (.given (.str "ann")) (.any "x") = .ok query ∧
      Step.Exhausts (Rows.step .lineage .indexed query) (Rows.start query) rows ∧ ⟨[("x", .str "cid")]⟩ ∈ rows := by
  have hsource : (Endpoint.given (.str "ann")).Ground := rfl
  have htarget : (Endpoint.any "x").Ground := trivial
  obtain ⟨query, rows, hquery, hexhausts, -, -, hmem⟩ :=
    rows_related closes_lineage hsource htarget (by simp) .indexed
  have hann : lineage.Edge (.str "parent") (.str "ann") (.str "bob") := ⟨0, Triple.isGround_annBob, rfl⟩
  have hbob : lineage.Edge (.str "parent") (.str "bob") (.str "cid") := ⟨4, Triple.isGround_bobCid, rfl⟩
  exact ⟨query, rows, hquery, hexhausts,
    (hmem _).2 ⟨.str "ann", .str "cid", .head hann (.single hbob), rfl, trivial, rfl⟩⟩

end TripleStore
