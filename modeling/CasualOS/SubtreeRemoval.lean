import CasualOS.CheckedWeave
import CasualOS.PlainWeave
import CasualOS.WeaveNodes
import Mathlib.Logic.Relation

/-! What `remove` takes out of a weave whose atoms, of any priorities, were added after their causes. -/

namespace CasualOS.SubtreeRemoval

open Dll (Ref)
open HashText Supported WeaveHeap WeaveRepr WeaveRead WeaveNodes CheckedWeave WeaveInsert
open PlainWeave (Signed signed_of_matches signed_string)
open List (mem_cons mem_map)

variable {T : Type} {getHash : AtomHashInput T → JsString}

/-- The weaves that come of inserting atoms with new ids whose causes are listed. -/
inductive Built (getHash : AtomHashInput T → JsString) : Weave T → Prop where
  | new (size : Option Int) : Built getHash (Weave.new size)
  | insert {w w' : Weave T} {r : WeaveResult T} (built : Built getHash w) (atom : Atom T)
      (fresh : w.getNode atom.id = none)
      (listed : ∀ cause, atom.cause = some cause → w.getNode cause ≠ none)
      (run : w.insert getHash atom = .ok (w', r)) : Built getHash w'

def CausedBy (listed : List (Atom T)) (p b : Atom T) : Prop := p ∈ listed ∧ b ∈ listed ∧ Names b p.id

/-- The cause chain of `b` passes through `a`. -/
def InSubtree (listed : List (Atom T)) : Atom T → Atom T → Prop :=
  Relation.ReflTransGen (CausedBy listed)

open Classical in
/-- `remove` takes out `a` and what it caused, and everything else stays where it is. -/
def RemovesExactly (w : Weave T) (a : Atom T) : Prop :=
  ∃ w' node lists, w.remove a = .ok (w', .atomRemoved node) ∧ rootLists w = some lists ∧
    rootLists w' = some ((lists.map (List.filter fun b => ¬ InSubtree lists.flatten a b)).filter
      (· ≠ [])) ∧
    (∀ b ∈ lists.flatten, InSubtree lists.flatten a b →
      w'.getNode b.id = none ∧ w'.getNodeByHash b.hash = none) ∧
    ∀ b ∈ lists.flatten, ¬ InSubtree lists.flatten a b → ∃ r, w'.atomAt r = some b ∧
      w'.getNode b.id = some r ∧ w'.getNodeByHash b.hash = some r

/-- What `a` caused follows it in its list, with nothing between, and the atom after that is not newer
than `a`. -/
def StandsTogether (w : Weave T) (a : Atom T) : Prop :=
  ∃ pre front below after post, rootLists w = some (pre ++ (front ++ a :: (below ++ after)) :: post) ∧
    (∀ b, b = a ∨ b ∈ below ↔
      InSubtree (pre ++ (front ++ a :: (below ++ after)) :: post).flatten a b) ∧
    ∀ next, after.head? = some next → next.id.timestamp ≤ a.id.timestamp

/-! ### Weaves built in causal order -/

structure Grown (getHash : AtomHashInput T → JsString) (w : Weave T) (cells : List (List (Cell T))) :
    Prop where
  checked : Checked getHash (Vouches getHash) w cells []
  hashed : Hashed w cells
  signed : ∀ c ∈ cells.flatten, Signed getHash c.2

theorem grown_new (size : Option Int) : Grown getHash (Weave.new size) [] where
  checked := checked_new size
  hashed := OrderedMap.indexes_empty _ _
  signed := by simp

variable {w w' : Weave T} {cells pre post : List (List (Cell T))} {front after : List (Cell T)}
  {c : Cell T} {a : Atom T} {made : Weave T × WeaveResult T}

theorem Grown.fresh_hash (grown : Grown getHash w cells) (injective : Function.Injective getHash)
    (signed : Signed getHash a) (fresh : ∀ d ∈ cells.flatten, idKey d ≠ atomIdToString a.id) :
    ∀ d ∈ cells.flatten, hashKey d ≠ a.hash :=
  fun d member same => fresh d member (signed_string injective d.2 a (grown.signed d member) signed same)

theorem Grown.addRoot (grown : Grown getHash w cells) (injective : Function.Injective getHash)
    (noCause : a.cause = none) (signed : Signed getHash a)
    (fresh : ∀ d ∈ cells.flatten, idKey d ≠ atomIdToString a.id) :
    Grown getHash (w.addRoot a).1 (cells ++ [[(w.nodes.length, a)]]) where
  checked := grown.checked.addRoot a noCause fresh
  hashed := addRoot_hashed grown.checked.repr grown.hashed a (grown.fresh_hash injective signed fresh)
  signed d member := by
    rcases List.mem_append.mp (List.flatten_append ▸ member) with old | new
    · exact grown.signed d old
    · have same : d = (w.nodes.length, a) := by simpa using new
      exact same ▸ signed

theorem Grown.insertUnder (grown : Grown getHash w (pre ++ (front ++ c :: after) :: post))
    (injective : Function.Injective getHash) (vouched : ∀ n, Vouches getHash c (n, a))
    (signed : Signed getHash a)
    (fresh : ∀ d ∈ (pre ++ (front ++ c :: after) :: post).flatten, idKey d ≠ atomIdToString a.id) :
    ∃ w' cells', w.insertUnder c.1 a false = .ok (w', w.nodes.length) ∧ Grown getHash w' cells' := by
  obtain ⟨w', run, checked⟩ := grown.checked.insertUnder vouches_orders a (vouched _) fresh
  obtain ⟨_, run', _, hashes, _⟩ := insertUnder_repr grown.checked.repr a fresh
  rw [run, Except.ok.injEq, Prod.mk.injEq] at run'
  have members := mem_placed pre post front after c a.id (w.nodes.length, a)
  rw [place_split] at members
  refine ⟨w', _, run, checked, ?_, fun d member => ?_⟩
  · rw [Hashed, run'.1, hashes]
    exact OrderedMap.Indexes.set grown.hashed (w.nodes.length, a) (grown.fresh_hash injective signed fresh) members
  · rcases (members d).mp member with new | old
    · exact new ▸ signed
    · exact grown.signed d old

theorem Grown.counted {mid : Weave T} (grown : Grown getHash w cells)
    (counted : w.countCardinality a = some mid) : Grown getHash mid cells := by
  obtain ⟨cardinality, rfl⟩ := countCardinality_eq w mid a counted
  have repr := grown.checked.repr
  exact ⟨⟨⟨repr.heap, repr.starts, repr.filled, repr.roots, repr.idMap, repr.buffer⟩,
    grown.checked.listed, grown.checked.roots, grown.checked.waiting⟩, grown.hashed, grown.signed⟩

theorem Grown.insertRoot (grown : Grown getHash w cells) (injective : Function.Injective getHash)
    (fresh : w.getNode a.id = none) (noCause : a.cause = none)
    (run : w.insertRoot getHash a = .ok made) : ∃ cells', Grown getHash made.1 cells' := by
  have stays : ∀ r : WeaveResult T, .ok (w, r) = (.ok made : Except Failure _) →
      ∃ cells', Grown getHash made.1 cells' := by
    intro r same
    rw [← Except.ok.inj same]
    exact ⟨cells, grown⟩
  unfold Weave.insertRoot at run
  split at run
  · exact stays _ run
  · next valid =>
      have hashed : atomMatchesHash getHash a none = true := by simpa using valid
      have signed := signed_of_matches a none hashed
      have rooted : WeaveNodes.insertCheckedRoot w a = .ok made → ∃ cells', Grown getHash made.1 cells' := by
        intro run
        simp only [WeaveNodes.insertCheckedRoot, fresh] at run
        split at run
        · exact stays _ run
        · next mid counted =>
            have same := grown.counted counted
            have keys : mid.idMap = w.idMap := by
              obtain ⟨cardinality, rfl⟩ := countCardinality_eq w mid a counted
              rfl
            have absent : mid.getNode a.id = none := by rw [Weave.getNode, keys]; exact fresh
            have more := same.addRoot injective noCause signed ((same.checked.repr.getNode_none a.id).mp absent)
            rw [releaseMissing_none more.checked.repr] at run
            rw [← Except.ok.inj run]
            exact ⟨_, more⟩
      simp only at run
      split at run
      · exact rooted run
      · cases run
      · split at run
        · exact stays _ run
        · exact rooted run

theorem Grown.insertChild (grown : Grown getHash w cells) (injective : Function.Injective getHash)
    (fresh : w.getNode a.id = none) (cause : AtomId) (caused : a.cause = some cause) (d : Cell T)
    (member : d ∈ cells.flatten) (named : idKey d = atomIdToString cause)
    (run : w.insertChild getHash a d.1 = .ok made) : ∃ cells', Grown getHash made.1 cells' := by
  unfold Weave.insertChild at run
  rw [grown.checked.repr.atomAt d (.inl member), Option.bind_some] at run
  split at run
  · rw [← Except.ok.inj run]
    exact ⟨cells, grown⟩
  · next accepted =>
      have absent := (grown.checked.repr.getNode_none a.id).mp fresh
      have signed := (PlainWeave.signed_of_checked a d.2 accepted).1
      obtain ⟨pre, front, after, post, rfl⟩ := split_at cells d member
      obtain ⟨w', cells', placed, more⟩ := grown.insertUnder injective
        (fun n => ⟨⟨cause, caused, named.symm⟩, accepted⟩) signed absent
      simp only [fresh, placed] at run
      have released : w'.releaseMissing w.nodes.length a = .ok made := run
      rw [releaseMissing_none more.checked.repr] at released
      rw [← Except.ok.inj released]
      exact ⟨cells', more⟩

theorem Built.grown (built : Built getHash w) (injective : Function.Injective getHash) :
    ∃ cells, Grown getHash w cells := by
  induction built with
  | new size => exact ⟨[], grown_new size⟩
  | insert built atom fresh listed run ih =>
    obtain ⟨cells, grown⟩ := ih
    unfold Weave.insert at run
    split at run
    · next noCause => exact grown.insertRoot injective fresh noCause run
    · next cause caused =>
        obtain ⟨n, node⟩ := Option.ne_none_iff_exists'.mp (listed cause caused)
        obtain ⟨d, member, rfl, named⟩ := (grown.checked.repr.getNode cause n).mp node
        simp only [node] at run
        exact grown.insertChild injective fresh cause caused d member named run

/-! ### The span that goes -/

theorem Grown.cell_of_atom (grown : Grown getHash w cells) {d e : Cell T} (left : d ∈ cells.flatten)
    (right : e ∈ cells.flatten) (same : d.2 = e.2) : d = e :=
  grown.checked.repr.id_unique d e left right (by rw [idKey, idKey, same])

theorem Grown.caused_newer (grown : Grown getHash w cells) (p b : Atom T)
    (link : CausedBy (atoms cells.flatten) p b) : p.id.timestamp < b.id.timestamp := by
  obtain ⟨inP, inB, names⟩ := link
  obtain ⟨e, inCells, rfl⟩ := mem_map.mp inB
  obtain ⟨d, inCells', rfl⟩ := mem_map.mp inP
  obtain ⟨l, present, inside⟩ := List.mem_flatten.mp inCells
  obtain ⟨cause, caused, named⟩ := names
  obtain ⟨root, rest, rfl⟩ := List.exists_cons_of_ne_nil (grown.checked.repr.filled l present)
  rcases mem_cons.mp inside with top | below
  · have noCause := grown.checked.roots _ present root rfl
    rw [← top, caused] at noCause
    cases noCause
  · obtain ⟨q, inList, vouched⟩ := (grown.checked.listed _ present).parent_of below
    obtain ⟨other, caused', named'⟩ := vouched.1
    rw [caused, Option.some.injEq] at caused'
    subst caused'
    have same := grown.checked.repr.id_unique q d (List.mem_flatten.mpr ⟨_, present, inList⟩) inCells'
      (named'.symm.trans named)
    exact same ▸ vouches_older q e vouched

theorem Grown.subtree_newer (grown : Grown getHash w cells) {a b : Atom T}
    (inside : InSubtree (atoms cells.flatten) a b) : b = a ∨ a.id.timestamp < b.id.timestamp := by
  induction inside with
  | refl => exact .inl rfl
  | tail _ link ih =>
    have newer := grown.caused_newer _ _ link
    rcases ih with same | above
    · exact .inr (same ▸ newer)
    · exact .inr (above.trans newer)

theorem Grown.remove_run (grown : Grown getHash w (pre ++ (front ++ c :: after) :: post)) :
    ∃ w', w.remove c.2 = .ok (w', .atomRemoved c.1) ∧
      Repr w' (pre ++ kept (front ++ after.dropWhile (onAtom (isNewer c.2.id.timestamp))) ++ post) [] ∧
      Hashed w' (pre ++ kept (front ++ after.dropWhile (onAtom (isNewer c.2.id.timestamp))) ++ post) := by
  have inList : front ++ c :: after ∈ pre ++ (front ++ c :: after) :: post := by simp
  have member : c ∈ (pre ++ (front ++ c :: after) :: post).flatten :=
    (flatten_middle ..).mpr (.inl (by simp))
  have whole : front = [] → c.2.cause = none ∧ ∀ d ∈ after, isNewer c.2.id.timestamp d.2 = true := by
    rintro rfl
    refine ⟨grown.checked.roots _ inList c rfl, fun d inside => ?_⟩
    exact decide_eq_true (newer_than_head vouches_older (grown.checked.listed _ inList) d inside)
  obtain ⟨w', run, left, hashed, _⟩ := removeNode_repr grown.checked.repr whole
  have node := (grown.checked.repr.getNode c.2.id c.1).mpr ⟨c, member, rfl, rfl⟩
  refine ⟨w', ?_, left, hashed grown.hashed⟩
  simp only [Weave.remove, node, run, bind, Except.bind, pure, Except.pure]

/-- The cells that go are the subtree of `c`. -/
def SpanExact (cells : List (List (Cell T))) (c : Cell T) (after : List (Cell T)) : Prop :=
  ∀ d ∈ cells.flatten, d ∈ c :: after.takeWhile (onAtom (isNewer c.2.id.timestamp)) ↔
    InSubtree (atoms cells.flatten) c.2 d.2

theorem filter_cells (keep : Atom T → Prop) [DecidablePred keep] (l m : List (Cell T))
    (stays : ∀ d ∈ l, keep d.2) (goes : ∀ d ∈ m, ¬ keep d.2) :
    (atoms l).filter keep = atoms l ∧ (atoms m).filter keep = [] := by
  constructor
  · refine List.filter_eq_self.mpr fun b member => ?_
    obtain ⟨d, inside, rfl⟩ := mem_map.mp member
    exact decide_eq_true (stays d inside)
  · refine List.filter_eq_nil_iff.mpr fun b member => ?_
    obtain ⟨d, inside, rfl⟩ := mem_map.mp member
    simpa using goes d inside

open Classical in
theorem SpanExact.lists (grown : Grown getHash w (pre ++ (front ++ c :: after) :: post))
    (exact : SpanExact (pre ++ (front ++ c :: after) :: post) c after) :
    ((((pre ++ (front ++ c :: after) :: post).map atoms).map (List.filter fun b =>
        ¬ InSubtree (atoms (pre ++ (front ++ c :: after) :: post).flatten) c.2 b)).filter (· ≠ [])) =
      (pre ++ kept (front ++ after.dropWhile (onAtom (isNewer c.2.id.timestamp))) ++ post).map atoms := by
  have repr := grown.checked.repr
  have split := List.takeWhile_append_dropWhile (p := onAtom (isNewer c.2.id.timestamp)) (l := after)
  generalize subtree : InSubtree (atoms (pre ++ (front ++ c :: after) :: post).flatten) c.2 = inside
    at exact ⊢
  have left : ∀ d ∈ (pre ++ kept (front ++ after.dropWhile (onAtom (isNewer c.2.id.timestamp))) ++
      post).flatten, ¬ inside d.2 := by
    intro d member within
    have sub := rest_subset pre post front after c _ d member
    have span := (exact d sub).mpr (subtree ▸ within)
    exact PlainWeave.group_gone repr _ d span member
  have gone : ∀ d ∈ c :: after.takeWhile (onAtom (isNewer c.2.id.timestamp)), ¬ ¬ inside d.2 := by
    intro d span
    have member : d ∈ (pre ++ (front ++ c :: after) :: post).flatten := by
      refine (flatten_middle ..).mpr (.inl (List.mem_append_right _ ?_))
      rcases mem_cons.mp span with here | later
      · exact here ▸ List.mem_cons_self
      · exact List.mem_cons_of_mem _ ((List.takeWhile_sublist _).subset later)
    exact not_not.mpr (subtree ▸ (exact d member).mp span)
  have others : ∀ ls : List (List (Cell T)), (∀ l ∈ ls, l ≠ [] ∧ ∀ d ∈ l, ¬ inside d.2) →
      ((ls.map atoms).map (List.filter fun b => ¬ inside b)).filter (· ≠ []) = ls.map atoms := by
    intro ls stays
    have same : (ls.map atoms).map (List.filter fun b => ¬ inside b) = ls.map atoms := by
      rw [List.map_map]
      exact List.map_congr_left fun l member =>
        (filter_cells (fun b => ¬ inside b) l [] (stays l member).2 (by simp)).1
    rw [same]
    refine List.filter_eq_self.mpr fun b member => ?_
    obtain ⟨l, inLs, rfl⟩ := mem_map.mp member
    simpa [atoms] using (stays l inLs).1
  have flat := @List.mem_flatten (Cell T)
  have first := others pre fun l member => ⟨repr.filled l (by simp [member]), fun d inL =>
    left d (flat.mpr ⟨l, by simp [member], inL⟩)⟩
  have last := others post fun l member => ⟨repr.filled l (by simp [member]), fun d inL =>
    left d (flat.mpr ⟨l, by simp [member], inL⟩)⟩
  have ends : ∀ d ∈ front ++ after.dropWhile (onAtom (isNewer c.2.id.timestamp)), ¬ inside d.2 := by
    intro d member
    refine left d ?_
    simp only [List.flatten_append, kept_flatten, List.mem_append]
    exact .inl (.inr (List.mem_append.mp member))
  have middle : (atoms (front ++ c :: after)).filter (fun b => ¬ inside b) =
      atoms (front ++ after.dropWhile (onAtom (isNewer c.2.id.timestamp))) := by
    conv_lhs => rw [← split, ← List.cons_append, ← List.append_assoc]
    simp only [atoms_append, List.filter_append]
    have head := (filter_cells (fun b => ¬ inside b) front [] (fun d member =>
      ends d (List.mem_append_left _ member)) (by simp)).1
    have tail := (filter_cells (fun b => ¬ inside b) (after.dropWhile _) [] (fun d member =>
      ends d (List.mem_append_right _ member)) (by simp)).1
    have span := (filter_cells (fun b => ¬ inside b) [] _ (by simp) gone).2
    rw [head, tail, span, List.append_nil]
  simp only [List.map_append, List.map_cons, List.filter_append, List.filter_cons] at first last ⊢
  rw [first, last, middle]
  by_cases empty : front ++ after.dropWhile (onAtom (isNewer c.2.id.timestamp)) = []
  · simp [empty, kept]
  · rw [kept_filled empty]
    have filled : atoms (front ++ after.dropWhile (onAtom (isNewer c.2.id.timestamp))) ≠ [] := by
      simpa [atoms] using empty
    rw [decide_eq_true filled, if_pos rfl]
    simp only [List.map_cons, List.map_nil, List.append_assoc, List.cons_append, List.nil_append]

theorem Grown.removes_iff (grown : Grown getHash w (pre ++ (front ++ c :: after) :: post)) :
    RemovesExactly w c.2 ↔ SpanExact (pre ++ (front ++ c :: after) :: post) c after := by
  have repr := grown.checked.repr
  obtain ⟨w', run, left, hashed⟩ := grown.remove_run
  have sub := rest_subset pre post front after c (onAtom (isNewer c.2.id.timestamp))
  have stays := rest_of pre post front after c (onAtom (isNewer c.2.id.timestamp))
  have goes := PlainWeave.group_gone repr (onAtom (isNewer c.2.id.timestamp))
  have flat : ((pre ++ (front ++ c :: after) :: post).map atoms).flatten =
      atoms (pre ++ (front ++ c :: after) :: post).flatten := atoms_flatten _
  have unmapped : ∀ d ∈ (pre ++ (front ++ c :: after) :: post).flatten,
      d ∉ (pre ++ kept (front ++ after.dropWhile (onAtom (isNewer c.2.id.timestamp))) ++ post).flatten →
      w'.getNode d.2.id = none ∧ w'.getNodeByHash d.2.hash = none := by
    intro d member gone
    constructor
    · refine (left.getNode_none d.2.id).mpr fun e inRest same => gone ?_
      exact repr.id_unique e d (sub e inRest) member same ▸ inRest
    · refine (OrderedMap.Indexes.absent hashed d.2.hash).mpr fun e inRest same => gone ?_
      have node := OrderedMap.Indexes.unique grown.hashed e d (sub e inRest) member same
      exact repr.cell_unique e d (.inl (sub e inRest)) (.inl member) node ▸ inRest
  have mapped : ∀ d ∈ (pre ++ kept (front ++ after.dropWhile (onAtom (isNewer c.2.id.timestamp))) ++
      post).flatten, w'.atomAt d.1 = some d.2 ∧ w'.getNode d.2.id = some d.1 ∧
        w'.getNodeByHash d.2.hash = some d.1 :=
    fun d member => ⟨left.atomAt d (.inl member), (left.getNode d.2.id d.1).mpr ⟨d, member, rfl, rfl⟩,
      OrderedMap.Indexes.get hashed d member⟩
  constructor
  · intro removes d member
    obtain ⟨after', node, lists, ran, read, _, gone, still⟩ := removes
    rw [run, Except.ok.injEq, Prod.mk.injEq] at ran
    rw [rootLists_repr repr, Option.some.injEq] at read
    rw [← ran.1, ← read, flat] at gone still
    have inLists : d.2 ∈ atoms (pre ++ (front ++ c :: after) :: post).flatten := List.mem_map_of_mem member
    constructor
    · intro span
      by_contra outside
      obtain ⟨r, _, found, _⟩ := still d.2 inLists outside
      obtain ⟨e, inRest, _, same⟩ := (left.getNode d.2.id r).mp found
      exact goes d span (repr.id_unique e d (sub e inRest) member same ▸ inRest)
    · intro inside
      by_contra outside
      have found := (mapped d (stays d member outside)).2.1
      rw [(gone d.2 inLists inside).1] at found
      cases found
  · intro exact
    refine ⟨w', c.1, _, run, rootLists_repr repr, ?_, fun b inLists inside => ?_,
      fun b inLists outside => ?_⟩
    · rw [rootLists_repr left, flat, exact.lists grown]
    · rw [flat] at inLists inside
      obtain ⟨d, member, rfl⟩ := mem_map.mp inLists
      exact unmapped d member (goes d ((exact d member).mpr inside))
    · rw [flat] at inLists outside
      obtain ⟨d, member, rfl⟩ := mem_map.mp inLists
      have found := mapped d (stays d member fun span => outside ((exact d member).mp span))
      exact ⟨d.1, found⟩

/-- The newer atoms that follow are cut off where they stop being newer. -/
theorem takeWhile_newer (time : Int) (below after : List (Atom T)) (newer : ∀ b ∈ below, time < b.id.timestamp)
    (ends : ∀ next, after.head? = some next → next.id.timestamp ≤ time) :
    (below ++ after).takeWhile (isNewer time) = below := by
  have passed : ∀ b ∈ below, isNewer time b = true := fun b member => decide_eq_true (newer b member)
  rw [List.takeWhile_append_of_pos passed]
  cases after with
  | nil => simp
  | cons next rest =>
    have stops : isNewer time next = false := decide_eq_false (not_lt.mpr (ends next rfl))
    rw [List.takeWhile_cons, stops]
    simp

theorem Grown.stands_of (grown : Grown getHash w (pre ++ (front ++ c :: after) :: post))
    (exact : SpanExact (pre ++ (front ++ c :: after) :: post) c after) : StandsTogether w c.2 := by
  have split := List.takeWhile_append_dropWhile (p := isNewer c.2.id.timestamp) (l := atoms after)
  have shape : (pre ++ (front ++ c :: after) :: post).map atoms = pre.map atoms ++
      (atoms front ++ c.2 :: ((atoms after).takeWhile (isNewer c.2.id.timestamp) ++
        (atoms after).dropWhile (isNewer c.2.id.timestamp))) :: post.map atoms := by
    rw [split, List.map_append, List.map_cons, atoms_append, atoms_cons]
  refine ⟨_, _, _, _, _, (rootLists_repr grown.checked.repr).trans (congrArg some shape),
    fun b => ?_, fun next head => ?_⟩
  · rw [← shape, atoms_flatten]
    constructor
    · intro span
      rw [← atoms_takeWhile] at span
      have inSpan : b ∈ atoms (c :: after.takeWhile (onAtom (isNewer c.2.id.timestamp))) :=
        mem_cons.mpr span
      obtain ⟨d, inside, rfl⟩ := mem_map.mp inSpan
      refine (exact d ((flatten_middle ..).mpr (.inl (List.mem_append_right _ ?_)))).mp inside
      rcases mem_cons.mp inside with here | later
      · exact here ▸ List.mem_cons_self
      · exact List.mem_cons_of_mem _ ((List.takeWhile_sublist _).subset later)
    · intro inside
      have inLists : b ∈ atoms (pre ++ (front ++ c :: after) :: post).flatten := by
        cases inside with
        | refl => exact List.mem_map_of_mem ((flatten_middle ..).mpr (.inl (by simp)))
        | tail _ link => exact link.2.1
      obtain ⟨d, member, rfl⟩ := mem_map.mp inLists
      have span := (exact d member).mpr inside
      rw [← atoms_takeWhile]
      exact mem_cons.mp (List.mem_map_of_mem (f := Prod.snd) span)
  · have stops := List.head?_dropWhile_not (isNewer c.2.id.timestamp) (atoms after)
    rw [head] at stops
    exact not_lt.mp (of_decide_eq_false (by simpa [isNewer] using stops))

/-- The removal of a listed atom is exact where what it caused stands together. -/
theorem removes_exactly_iff (injective : Function.Injective getHash) (built : Built getHash w)
    (lists : List (List (Atom T))) (read : rootLists w = some lists) (listed : a ∈ lists.flatten) :
    RemovesExactly w a ↔ StandsTogether w a := by
  obtain ⟨cells, grown⟩ := built.grown injective
  have shown := rootLists_repr grown.checked.repr
  constructor
  · intro removes
    rw [shown, Option.some.injEq] at read
    rw [← read, atoms_flatten] at listed
    obtain ⟨c, member, rfl⟩ := mem_map.mp listed
    obtain ⟨pre, front, after, post, rfl⟩ := split_at cells c member
    exact grown.stands_of (grown.removes_iff.mp removes)
  · rintro ⟨pre, front, below, rest, post, placed, subtree, ends⟩
    rw [shown, Option.some.injEq] at placed
    rw [← placed, atoms_flatten] at subtree
    obtain ⟨pre', front', c, after, post', rfl, rfl, rfl, rfl, tail, rfl⟩ :=
      split_cells cells _ _ _ _ _ placed
    refine grown.removes_iff.mpr fun d member => ?_
    have newer : ∀ b ∈ below, c.2.id.timestamp < b.id.timestamp := by
      intro b inside
      rcases grown.subtree_newer ((subtree b).mp (.inr inside)) with same | above
      · -- an atom is in its list once
        have distinct := (grown.checked.repr.heap.perm (middle_perm pre' post' [] _)).head_distinct
        have again : c.2 ∈ atoms after := tail ▸ List.mem_append_left _ (same ▸ inside)
        obtain ⟨e, inAfter, equal⟩ := mem_map.mp again
        have one := grown.cell_of_atom (d := e) (e := c) ((flatten_middle ..).mpr (.inl (by simp [inAfter])))
          ((flatten_middle ..).mpr (.inl (by simp))) equal
        rw [refs_append, refs_cons] at distinct
        exact absurd (mem_refs e after inAfter)
          (one ▸ (List.nodup_cons.mp (List.nodup_append.mp distinct).2.1).1)
      · exact above
    rw [← subtree d.2, ← takeWhile_newer c.2.id.timestamp below rest newer ends, ← tail, ← atoms_takeWhile]
    constructor
    · intro span
      exact mem_cons.mp (List.mem_map_of_mem (f := Prod.snd) span)
    · intro span
      have inAtoms : d.2 ∈ atoms (c :: after.takeWhile (onAtom (isNewer c.2.id.timestamp))) :=
        mem_cons.mpr span
      obtain ⟨e, inSpan, same⟩ := mem_map.mp inAtoms
      have inCells : e ∈ (pre' ++ (front' ++ c :: after) :: post').flatten := by
        refine (flatten_middle ..).mpr (.inl (List.mem_append_right _ ?_))
        rcases mem_cons.mp inSpan with here | later
        · exact here ▸ List.mem_cons_self
        · exact List.mem_cons_of_mem _ ((List.takeWhile_sublist _).subset later)
      exact grown.cell_of_atom inCells member same ▸ inSpan

/-! ### Sample -/

section Sample

def grow (w : Weave Unit) (a : Atom Unit) : Weave Unit :=
  match w.insert unitHash a with
  | .ok (w', _) => w'
  | .error _ => w

theorem built_grow {w : Weave Unit} (built : Built unitHash w) (a : Atom Unit)
    (fresh : w.getNode a.id = none) (listed : ∀ cause ∈ a.cause, w.getNode cause ≠ none) :
    Built unitHash (grow w a) := by
  unfold grow
  split
  · next run => exact .insert built a fresh listed run
  · exact built

def valueAtom : Atom Unit := newAtom unitHash (sampleId 1 .undefined) none ()

/-- An older atom that is sorted first for its priority, as the deletions are. -/
def deletion : Atom Unit := newAtom unitHash (sampleId 2 (.value 1)) (some valueAtom) ()

def edit : Atom Unit := newAtom unitHash (sampleId 3 .undefined) (some valueAtom) ()

def edited : Weave Unit := grow (grow (grow (Weave.new none) valueAtom) deletion) edit

theorem edited_built : Built unitHash edited := by
  refine built_grow (built_grow (built_grow (.new none) valueAtom ?_ ?_) deletion ?_ ?_) edit ?_ ?_
  all_goals decide +kernel

theorem edited_lists : rootLists edited = some [[valueAtom, deletion, edit]] := by decide +kernel

theorem edited_causes (x y : Atom Unit)
    (link : CausedBy [[valueAtom, deletion, edit]].flatten x y) : x = valueAtom := by
  obtain ⟨inX, inY, cause, caused, named⟩ := link
  have unnamed : ∀ x ∈ [[valueAtom, deletion, edit]].flatten,
      ∀ y ∈ [[valueAtom, deletion, edit]].flatten, ∀ cause ∈ y.cause,
        atomIdToString cause = atomIdToString x.id → x = valueAtom := by decide +kernel
  exact unnamed x inX y inY cause caused named

theorem edited_leaf (x y : Atom Unit) (apart : x ≠ valueAtom)
    (inside : InSubtree [[valueAtom, deletion, edit]].flatten x y) : y = x := by
  rcases Relation.ReflTransGen.cases_head inside with same | ⟨z, link, _⟩
  · exact same.symm
  · exact absurd (edited_causes x z link) apart

/-- The edit stands last, so that it goes alone. -/
theorem edit_removed_exactly : RemovesExactly edited edit := by
  refine (removes_exactly_iff unitHash_injective edited_built _ edited_lists (by decide +kernel)).mpr ?_
  refine ⟨[], [valueAtom, deletion], [], [], [], edited_lists, fun b => ?_, by simp⟩
  constructor
  · intro same
    rcases same with rfl | absent
    · exact .refl
    · cases absent
  · exact fun inside => .inl (edited_leaf edit b (by decide +kernel) inside)

/-- With the deletion the newer edit goes, which it did not cause. -/
theorem edit_lost_with_deletion : Function.Injective unitHash ∧ Built unitHash edited ∧
    rootLists edited = some [[valueAtom, deletion, edit]] ∧ ¬ RemovesExactly edited deletion := by
  refine ⟨unitHash_injective, edited_built, edited_lists, ?_⟩
  rintro ⟨w', node, lists, run, read, _, _, stays⟩
  rw [edited_lists, Option.some.injEq] at read
  subst read
  have lost : (edited.remove deletion).toOption.map (fun made => made.1.getNode edit.id) = some none := by
    decide +kernel
  rw [run] at lost
  have outside : ¬ InSubtree [[valueAtom, deletion, edit]].flatten deletion edit := by
    intro inside
    exact absurd (edited_leaf deletion edit (by decide +kernel) inside) (by decide +kernel)
  obtain ⟨r, _, found, _⟩ := stays edit (by decide +kernel) outside
  simp [Except.toOption, found] at lost

end Sample

end CasualOS.SubtreeRemoval
