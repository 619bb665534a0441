import Mathlib.Order.WellFounded
import CasualOS.Insertions
import CasualOS.SourceTrees

/-! What the energy checks of a program insert into its text. -/

namespace CasualOS.TranspiledCode

open TagEdit YjsText
open List (append_assoc append_nil cons_ne_nil forall_mem_cons length_cons length_singleton mem_cons nil_append)
open Option (bind_some)

/-! ### The gaps of a program -/

def check (p : Nat) : Source → Nat → JsString
  | .block _, start => putAt (start + 1) (energyCheckCall ++ [59]) p
  | .empty, start => putAt start energyCheckCall p
  | statement, start =>
    putAt start (123 :: (energyCheckCall ++ [59])) p ++ putAt (start + statement.text.length) [125] p

def texts (pieces : List (Field × JsString)) : JsString := pieces.flatMap Prod.snd

def under (key : Field) (pieces : List (Field × JsString)) : JsString :=
  texts (pieces.filter fun piece => piece.1 = key)

mutual

/-- What is inserted at an index. -/
def Source.gap (p : Nat) : Source → Nat → JsString
  | .node _ _ _ _ pieces, offset => texts (pieces.gaps p offset)
  | .loop _ _ head _ body tail, offset =>
    let start := offset + head.text.length + 1
    check p body start ++
      texts (head.gaps p offset ++ (.body, body.gap p start) :: tail.gaps p (start + body.text.length))
  | .block pieces, offset => texts (pieces.gaps p (offset + 1))
  | .empty, _ => []

def Pieces.gaps (p : Nat) : Pieces → Nat → List (Field × JsString)
  | .nil, _ => []
  | .token text rest, offset => rest.gaps p (offset + text.length)
  | .child field child rest, offset => (field, child.gap p offset) :: rest.gaps p (offset + child.text.length)
  | .twin _ _ _ rest, offset => rest.gaps p offset

end

/-! ### Where the gaps are -/

section Gaps

theorem putAt_ne {p q : Nat} (apart : q ≠ p) (text : JsString) : putAt p text q = [] := if_neg apart

theorem putAt_self (p : Nat) (text : JsString) : putAt p text p = text := if_pos rfl

theorem putAt_append (p : Nat) (first second : JsString) (q : Nat) :
    putAt p first q ++ putAt p second q = putAt p (first ++ second) q := by
  rw [putAt, putAt, putAt]
  split <;> rfl

theorem texts_nothing {pieces : List (Field × JsString)} (nothing : ∀ piece ∈ pieces, piece.2 = []) :
    texts pieces = [] := List.flatMap_eq_nil_iff.mpr nothing

theorem texts_append (first second : List (Field × JsString)) :
    texts (first ++ second) = texts first ++ texts second := List.flatMap_append

theorem texts_cons (piece : Field × JsString) (rest : List (Field × JsString)) :
    texts (piece :: rest) = piece.2 ++ texts rest := List.flatMap_cons

theorem under_append (key : Field) (first second : List (Field × JsString)) :
    under key (first ++ second) = under key first ++ under key second := by
  rw [under, List.filter_append, texts_append]
  rfl

theorem under_cons (key : Field) (piece : Field × JsString) (rest : List (Field × JsString)) :
    under key (piece :: rest) = (if piece.1 = key then piece.2 else []) ++ under key rest := by
  rw [under, List.filter_cons]
  by_cases same : piece.1 = key
  · rw [if_pos (by simpa using same), if_pos same, texts_cons]
    rfl
  · rw [if_neg (by simpa using same), if_neg same]
    rfl

theorem check_out {p start : Nat} {body : Source} (out : p < start ∨ start + body.text.length < p) :
    check p body start = [] := by
  cases body with
  | block pieces =>
    rw [Source.text, length_cons, List.length_append] at out
    exact putAt_ne (by omega) _
  | empty => exact putAt_ne (by omega) _
  | node type plain isAsync method pieces =>
    exact List.append_eq_nil_iff.mpr ⟨putAt_ne (by omega) _, putAt_ne (by omega) _⟩
  | loop type loops head last body tail =>
    exact List.append_eq_nil_iff.mpr ⟨putAt_ne (by omega) _, putAt_ne (by omega) _⟩

mutual

/-- A program is edited behind its first position only, and not behind its last one. -/
theorem gap_out {p offset : Nat} (c : Source) (out : p ≤ offset ∨ offset + c.text.length < p) :
    c.gap p offset = [] := by
  cases c with
  | node type plain isAsync method pieces => exact texts_nothing (gaps_out pieces out)
  | loop type loops head last body tail =>
    rw [Source.text, List.length_append, length_cons, List.length_append] at out
    rw [Source.gap, check_out (by omega), nil_append]
    refine texts_nothing (List.forall_mem_append.mpr ⟨gaps_out head (by omega), ?_⟩)
    exact forall_mem_cons.mpr ⟨gap_out body (by omega), gaps_out tail (by omega)⟩
  | block pieces =>
    rw [Source.text, length_cons, List.length_append] at out
    exact texts_nothing (gaps_out pieces (by omega))
  | empty => rfl

theorem gaps_out {p offset : Nat} (pieces : Pieces) (out : p ≤ offset ∨ offset + pieces.text.length < p) :
    ∀ piece ∈ pieces.gaps p offset, piece.2 = [] := by
  cases pieces with
  | nil => exact List.forall_mem_nil _
  | token text rest =>
    rw [Pieces.text, List.length_append] at out
    exact gaps_out rest (by omega)
  | child field child rest =>
    rw [Pieces.text, List.length_append] at out
    exact forall_mem_cons.mpr ⟨gap_out child (by omega), gaps_out rest (by omega)⟩
  | twin field name size rest => exact gaps_out rest out

end

/-- At most one of the pieces is edited. -/
def Lone (pieces : List (Field × JsString)) : Prop :=
  pieces.Pairwise fun first second => first.2 = [] ∨ second.2 = []

theorem lone_gaps (p : Nat) (pieces : Pieces) (offset : Nat) : Lone (pieces.gaps p offset) := by
  induction pieces using Pieces.rec (motive_1 := fun _ => True) generalizing offset with
  | node | loop | block | empty => trivial
  | nil => exact .nil
  | token text rest ih => exact ih _
  | twin field name size rest ih => exact ih _
  | child field child rest _ ih =>
    refine List.pairwise_cons.mpr ⟨fun piece member => ?_, ih _⟩
    by_cases inside : p ≤ offset + child.text.length
    · exact .inr (gaps_out rest (.inl inside) piece member)
    · exact .inl (gap_out child (.inr (by omega)))

theorem lone_loop (p : Nat) (head : Pieces) (body : Source) (tail : Pieces) (offset : Nat) :
    Lone (head.gaps p offset ++ (.body, body.gap p (offset + head.text.length + 1)) ::
      tail.gaps p (offset + head.text.length + 1 + body.text.length)) := by
  refine List.pairwise_append.mpr ⟨lone_gaps p head offset, List.pairwise_cons.mpr ⟨?_, lone_gaps p tail _⟩, ?_⟩
  · intro piece member
    by_cases inside : p ≤ offset + head.text.length + 1 + body.text.length
    · exact .inr (gaps_out tail (.inl inside) piece member)
    · exact .inl (gap_out body (.inr (by omega)))
  · intro first early second late
    by_cases inside : p ≤ offset + head.text.length
    · rcases mem_cons.mp late with rfl | later
      · exact .inr (gap_out body (.inl (by omega)))
      · exact .inr (gaps_out tail (.inl (by omega)) second later)
    · exact .inl (gaps_out head (.inr (by omega)) first early)

theorem flatMap_key {keys : List Field} (distinct : keys.Nodup) {field : Field} (member : field ∈ keys)
    (text : JsString) : keys.flatMap (fun key => if field = key then text else []) = text := by
  induction keys with
  | nil => cases member
  | cons key rest ih =>
    obtain ⟨fresh, distinctRest⟩ := List.nodup_cons.mp distinct
    rw [List.flatMap_cons]
    by_cases same : field = key
    · have nothing : rest.flatMap (fun key => if field = key then text else []) = [] :=
        List.flatMap_eq_nil_iff.mpr fun other held => if_neg fun again => fresh (by rw [← same, again]; exact held)
      rw [if_pos same, nothing, append_nil]
    · have later := (mem_cons.mp member).resolve_left same
      rw [if_neg same, nil_append, ih distinctRest later]

theorem texts_keys {pieces : List (Field × JsString)} (lone : Lone pieces) {keys : List Field} (distinct : keys.Nodup)
    (all : ∀ piece ∈ pieces, piece.1 ∈ keys) : keys.flatMap (fun key => under key pieces) = texts pieces := by
  induction pieces with
  | nil => exact List.flatMap_eq_nil_iff.mpr fun key _ => rfl
  | cons piece rest ih =>
    obtain ⟨own, others⟩ := forall_mem_cons.mp all
    obtain ⟨apart, loneRest⟩ := List.pairwise_cons.mp lone
    simp only [under_cons, texts_cons]
    by_cases quiet : piece.2 = []
    · simp only [quiet, ite_self, nil_append]
      exact ih loneRest others
    · -- The others have nothing then, and the piece is under one key.
      have nothing : ∀ other ∈ rest, other.2 = [] := fun other member => (apart other member).resolve_left quiet
      have none : ∀ key, under key rest = [] := fun key =>
        texts_nothing fun other member => nothing other (List.mem_of_mem_filter member)
      rw [texts_nothing nothing]
      simp only [none, append_nil]
      exact flatMap_key distinct own piece.2

end Gaps

/-! ### The text of a program that pays -/

section Texts

variable {keys : NodeType → List Field}

theorem check_end {body : Source} (filled : body.text ≠ []) (start : Nat) :
    ∃ count, check (start + body.text.length) body start = List.replicate count 125 := by
  have some_text := List.length_pos_iff.mpr filled
  cases body with
  | block pieces =>
    refine ⟨0, putAt_ne ?_ _⟩
    rw [Source.text, length_cons, List.length_append, length_singleton]
    omega
  | empty => exact ⟨0, putAt_ne (by rw [Source.text, length_singleton]; omega) _⟩
  | node type plain isAsync method pieces =>
    refine ⟨1, (congrArg (· ++ _) (putAt_ne (by omega) _)).trans ?_⟩
    exact putAt_self _ _
  | loop type loops head last body tail =>
    refine ⟨1, (congrArg (· ++ _) (putAt_ne (by omega) _)).trans ?_⟩
    exact putAt_self _ _

mutual

/-- Behind its last character a program gets closing braces only. -/
theorem gap_end (c : Source) (proper : c.Proper keys) (offset : Nat) :
    ∃ count, c.gap (offset + c.text.length) offset = List.replicate count 125 := by
  cases c with
  | node type plain isAsync method pieces => exact gaps_end pieces proper.2 offset
  | loop type loops head last body tail =>
    obtain ⟨_, _, filled, properHead, properBody, properTail⟩ := proper
    have size : offset + (Source.loop type loops head last body tail).text.length =
        offset + head.text.length + 1 + body.text.length + tail.text.length := by
      rw [Source.text, List.length_append, length_cons, List.length_append]
      omega
    have some_body := List.length_pos_iff.mpr filled
    have inHead := texts_nothing (gaps_out head (.inr (show offset + head.text.length <
      offset + head.text.length + 1 + body.text.length + tail.text.length by omega)))
    rw [size, Source.gap, texts_append, texts_cons, inHead, nil_append]
    by_cases ends : tail.text.length = 0
    · obtain ⟨first, checks⟩ := check_end filled (offset + head.text.length + 1)
      obtain ⟨second, inBody⟩ := gap_end body properBody (offset + head.text.length + 1)
      have inTail := texts_nothing (gaps_out tail (.inl (Nat.le_refl
        (offset + head.text.length + 1 + body.text.length))))
      rw [ends, Nat.add_zero]
      refine ⟨first + second, ?_⟩
      rw [checks, inBody, inTail, append_nil, List.replicate_add]
    · obtain ⟨count, inTail⟩ := gaps_end tail properTail (offset + head.text.length + 1 + body.text.length)
      refine ⟨count, ?_⟩
      rw [check_out (by omega), gap_out body (by omega), inTail]
      rfl
  | block pieces =>
    refine ⟨0, texts_nothing (gaps_out pieces (.inr ?_))⟩
    rw [Source.text, length_cons, List.length_append, length_singleton]
    omega
  | empty => exact ⟨0, rfl⟩

theorem gaps_end (pieces : Pieces) (proper : pieces.Proper keys) (offset : Nat) :
    ∃ count, texts (pieces.gaps (offset + pieces.text.length) offset) = List.replicate count 125 := by
  cases pieces with
  | nil => exact ⟨0, rfl⟩
  | token text rest =>
    rw [Pieces.text, List.length_append, ← Nat.add_assoc]
    exact gaps_end rest proper (offset + text.length)
  | child field child rest =>
    rw [Pieces.text, List.length_append, ← Nat.add_assoc, Pieces.gaps, texts_cons]
    by_cases ends : rest.text.length = 0
    · have inRest := texts_nothing (gaps_out rest (.inl (Nat.le_refl (offset + child.text.length))))
      rw [ends, Nat.add_zero, inRest, append_nil]
      exact gap_end child proper.1 offset
    · rw [gap_out child (by omega), nil_append]
      exact gaps_end rest proper.2 (offset + child.text.length)
  | twin field name size rest => exact gaps_end rest proper.2 offset

end

theorem text_callStatement : callStatement.text = energyCheckCall ++ [59] := rfl

theorem text_wrapped (statement : Source) :
    (Source.block (.child .body callStatement (.child .body statement .nil))).text =
      123 :: (energyCheckCall ++ [59] ++ (statement.text ++ [125])) := by
  simp only [Source.text, Pieces.text, text_callStatement, append_nil, append_assoc]

theorem spread_wrapped {body : Source} {gaps : Nat → JsString} {start : Nat} (filled : body.text ≠ [])
    (ends : ∃ count, body.gap (start + body.text.length) start = List.replicate count 125)
    (inside : spread (fun p => body.gap p start) start body.text = body.paid.text)
    (same : ∀ p, start ≤ p → p ≤ start + body.text.length → gaps p =
      (putAt start (123 :: (energyCheckCall ++ [59])) p ++ putAt (start + body.text.length) [125] p) ++
        body.gap p start) :
    gaps start ++ spread gaps start body.text = 123 :: (energyCheckCall ++ [59] ++ (body.paid.text ++ [125])) := by
  have some_text := List.length_pos_iff.mpr filled
  have opens : gaps start = 123 :: (energyCheckCall ++ [59]) := by
    rw [same start (Nat.le_refl _) (by omega), putAt_self, putAt_ne (by omega), gap_out body (.inl (Nat.le_refl _)),
      append_nil, append_nil]
  have closes : spread gaps start body.text = spread (fun p => body.gap p start) start body.text ++ [125] := by
    refine spread_last filled (fun p low high => ?_) ?_
    · rw [same p (by omega) (by omega), putAt_ne (by omega), putAt_ne (by omega)]
      rfl
    · -- All that stands there are closing braces, so their order does not matter.
      obtain ⟨count, braces⟩ := ends
      rw [same _ (by omega) (Nat.le_refl _), putAt_ne (by omega), putAt_self, braces, nil_append,
        ← List.replicate_one, List.replicate_append_replicate, List.replicate_append_replicate, Nat.add_comm]
  rw [opens, closes, inside, List.cons_append]

theorem spread_body {body : Source} {gaps : Nat → JsString} {start : Nat} (filled : body.text ≠ [])
    (ends : ∃ count, body.gap (start + body.text.length) start = List.replicate count 125)
    (inside : spread (fun p => body.gap p start) start body.text = body.paid.text)
    (same : ∀ p, start ≤ p → p ≤ start + body.text.length → gaps p = check p body start ++ body.gap p start) :
    gaps start ++ spread gaps start body.text = body.paid.pay.text := by
  cases body with
  | node type plain isAsync method pieces =>
    exact (spread_wrapped filled ends inside same).trans (text_wrapped _).symm
  | loop type loops head last body tail =>
    exact (spread_wrapped filled ends inside same).trans (text_wrapped _).symm
  | block pieces =>
    have size : (Source.block pieces).text.length = pieces.text.length + 2 := by
      rw [Source.text, length_cons, List.length_append]
      rfl
    rw [size] at same
    have opens : gaps start = [] := by
      rw [same start (Nat.le_refl _) (by omega), gap_out _ (.inl (Nat.le_refl _)), check, putAt_ne (by omega)]
      rfl
    have first : (Source.block pieces).gap (start + 1) start = [] :=
      texts_nothing (gaps_out pieces (.inl (Nat.le_refl _)))
    have calls : gaps (start + 1) = energyCheckCall ++ [59] := by
      rw [same _ (by omega) (by omega), first, check, putAt_self, append_nil]
    have others : spread gaps (start + 1) (pieces.text ++ [125]) =
        spread (fun p => (Source.block pieces).gap p start) (start + 1) (pieces.text ++ [125]) := by
      refine spread_congr fun p low high => ?_
      rw [List.length_append, length_singleton] at high
      rw [same p (by omega) (by omega), check, putAt_ne (by omega)]
      rfl
    rw [Source.text, spread, first, Source.paid, Source.text, nil_append] at inside
    rw [opens, Source.text, spread, calls, others, List.tail_eq_of_cons_eq inside, Source.paid, Source.pay,
      Source.text, Pieces.text, text_callStatement, append_assoc, append_assoc]
    rfl
  | empty =>
    have opens : gaps start = energyCheckCall := by
      rw [same start (Nat.le_refl _) (by omega), check, putAt_self]
      exact append_nil _
    have nothing : gaps (start + 1) = [] := by
      rw [same (start + 1) (by omega) (Nat.le_refl _), check, putAt_ne (by omega)]
      rfl
    rw [opens, Source.text, spread, nothing]
    rfl

mutual

/-- A program with its gaps is the program that pays. -/
theorem spread_paid (c : Source) (proper : c.Proper keys) {gaps : Nat → JsString} {offset : Nat}
    (same : ∀ p, offset < p → p ≤ offset + c.text.length → gaps p = c.gap p offset) :
    spread gaps offset c.text = c.paid.text := by
  cases c with
  | node type plain isAsync method pieces => exact spreadIn_paid pieces proper.2 same
  | loop type loops head last body tail =>
    obtain ⟨_, _, filled, properHead, properBody, properTail⟩ := proper
    rw [Source.text, List.length_append, length_cons, List.length_append] at same
    have inHead : spread gaps offset head.text = head.paid.text := by
      refine spreadIn_paid head properHead fun p low high => ?_
      rw [same p low (by omega), Source.gap, texts_append, texts_cons, check_out (by omega),
        gap_out body (by omega), texts_nothing (gaps_out tail (by omega)), append_nil, append_nil,
        nil_append]
    have inBody := @spread_body body gaps _ filled (gap_end body properBody (offset + head.text.length + 1))
      (spread_paid body properBody fun p _ _ => rfl) (fun p low high => by
        rw [same p (by omega) (by omega), Source.gap, texts_append, texts_cons,
          texts_nothing (gaps_out head (by omega)), texts_nothing (gaps_out tail (by omega)), append_nil,
          nil_append])
    have inTail : spread gaps (offset + head.text.length + 1 + body.text.length) tail.text = tail.paid.text := by
      refine spreadIn_paid tail properTail fun p low high => ?_
      rw [same p (by omega) (by omega), Source.gap, texts_append, texts_cons, check_out (by omega),
        texts_nothing (gaps_out head (by omega)), gap_out body (by omega)]
      rfl
    rw [Source.text, spread_append, inHead, spread, spread_append, ← append_assoc, inBody, inTail]
    rfl
  | block pieces =>
    rw [Source.text, length_cons, List.length_append, length_singleton] at same
    have first : gaps (offset + 1) = [] := by
      rw [same _ (by omega) (by omega)]
      exact texts_nothing (gaps_out pieces (.inl (Nat.le_refl _)))
    have inside : spread gaps (offset + 1) pieces.text = pieces.paid.text :=
      spreadIn_paid pieces proper.2 fun p low high => same p (by omega) (by omega)
    have last : gaps (offset + 1 + pieces.text.length + 1) = [] := by
      rw [same _ (by omega) (by omega)]
      exact texts_nothing (gaps_out pieces (.inr (by omega)))
    rw [Source.text, spread, first, spread_append, inside, spread, last]
    rfl
  | empty => exact congrArg (59 :: ·) ((append_nil _).trans (same _ (Nat.lt_succ_self _) (Nat.le_refl _)))

theorem spreadIn_paid (pieces : Pieces) (proper : pieces.Proper keys) {gaps : Nat → JsString} {offset : Nat}
    (same : ∀ p, offset < p → p ≤ offset + pieces.text.length → gaps p = texts (pieces.gaps p offset)) :
    spread gaps offset pieces.text = pieces.paid.text := by
  cases pieces with
  | nil => rfl
  | token text rest =>
    rw [Pieces.text, List.length_append] at same
    have inText : spread gaps offset text = text := by
      refine spread_nothing fun p low high => ?_
      rw [same p low (by omega)]
      exact texts_nothing (gaps_out rest (.inl high))
    have inRest : spread gaps (offset + text.length) rest.text = rest.paid.text :=
      spreadIn_paid rest proper fun p low high => same p (by omega) (by omega)
    rw [Pieces.text, spread_append, inText, inRest]
    rfl
  | child field child rest =>
    rw [Pieces.text, List.length_append] at same
    have inChild : spread gaps offset child.text = child.paid.text := by
      refine spread_paid child proper.1 fun p low high => ?_
      rw [same p low (by omega), Pieces.gaps, texts_cons, texts_nothing (gaps_out rest (.inl high)), append_nil]
    have inRest : spread gaps (offset + child.text.length) rest.text = rest.paid.text := by
      refine spreadIn_paid rest proper.2 fun p low high => ?_
      rw [same p (by omega) (by omega), Pieces.gaps, texts_cons, gap_out child (.inr low)]
      rfl
    rw [Pieces.text, spread_append, inChild, inRest]
    rfl
  | twin field name size rest => exact spreadIn_paid rest proper.2 same

end

end Texts

/-! ### The traversal -/

section Traversal

variable (t : Transpiler) {code : JsString} {gaps : Nat → JsString} {s : Editing code}

theorem woven_congr_gaps {gaps gaps' : Nat → JsString} (woven : Woven gaps s)
    (same : ∀ p, gaps p = gaps' p) : Woven gaps' s := (funext same : gaps = gaps') ▸ woven

theorem insertEnergyCheck_woven (woven : Woven gaps s)
    (other : s.clientID ≠ 0) {start stop : Nat} (low : 0 < start) (order : start ≤ stop)
    (high : stop ≤ code.length) (postfix' : JsString) (wrap : Bool) :
    ∃ s', t.insertEnergyCheck s.version start stop postfix' wrap s = some s' ∧ Woven (fun p => gaps p ++ (if wrap then
        putAt start (123 :: (energyCheckCall ++ postfix')) p ++ putAt stop [125] p
        else putAt start (energyCheckCall ++ postfix') p)) s' := by
  have call : energyCheckCall ++ postfix' ≠ [] := cons_ne_nil _ _
  cases wrap with
  | false =>
    obtain ⟨checked, ran, _, _, wovenChecked⟩ :=
      insertAt_woven woven low (by omega) t.merges other call
    refine ⟨checked, ?_, wovenChecked⟩
    simp only [Transpiler.insertEnergyCheck, Bool.false_eq_true, if_false, bind_some, ran]
  | true =>
    obtain ⟨opened, ranOpen, clientOpen, versionOpen, wovenOpen⟩ :=
      insertAt_woven woven low (by omega) t.merges other (cons_ne_nil 123 [])
    obtain ⟨checked, ranCheck, clientCheck, versionCheck, wovenCheck⟩ :=
      insertAt_woven wovenOpen low (by omega) t.merges (clientOpen ▸ other) call
    obtain ⟨closed, ranClose, _, _, wovenClose⟩ :=
      insertAt_woven wovenCheck (by omega : 0 < stop) high t.merges (clientCheck ▸ clientOpen ▸ other)
        (cons_ne_nil 125 [])
    refine ⟨closed, ?_, woven_congr_gaps wovenClose fun p => ?_⟩
    · rw [versionOpen] at ranCheck
      rw [versionCheck, versionOpen] at ranClose
      simp only [Transpiler.insertEnergyCheck, if_true, bind_some, ranOpen, ranCheck, ranClose]
    · rw [if_pos rfl, append_assoc, append_assoc, ← append_assoc (putAt start _ p), putAt_append]
      rfl

theorem woven_nextClient (woven : Woven gaps s) :
    Woven gaps s.nextClient := ⟨woven.wellFormed, woven.size, woven.present, woven.line⟩

theorem check_woven (woven : Woven gaps s) (body : Source) {start : Nat}
    (low : 0 < start) (high : start + body.text.length ≤ code.length) :
    ∃ s', t.insertEnergyCheckIntoStatement (body.place start).data s = some s' ∧
      Woven (fun p => gaps p ++ check p body start) s' := by
  have ready := woven_nextClient woven
  have other : s.nextClient.clientID ≠ 0 := Nat.succ_ne_zero _
  cases body with
  | block pieces =>
    rw [Source.text, length_cons, List.length_append, length_singleton] at high
    obtain ⟨s', ran, after⟩ := insertEnergyCheck_woven t ready other (show 0 < start + 1 by omega)
      (show start + 1 ≤ start + pieces.text.length + 2 by omega) (by omega) [59] false
    exact ⟨s', ran, after⟩
  | empty =>
    rw [Source.text, length_singleton] at high
    obtain ⟨s', ran, after⟩ := insertEnergyCheck_woven t ready other low (Nat.le_succ start) high [] false
    exact ⟨s', ran, woven_congr_gaps after fun p => by rw [append_nil]; rfl⟩
  | node type plain isAsync method pieces =>
    obtain ⟨s', ran, after⟩ := insertEnergyCheck_woven t ready other low
      (Nat.le_add_right start pieces.text.length) high [59] true
    refine ⟨s', ?_, after⟩
    rw [← ran]
    cases type <;> first | rfl | cases plain
  | loop type loops head last body tail =>
    have size : start + (Source.loop type loops head last body tail).text.length =
        start + head.text.length + 1 + body.text.length + tail.text.length := by
      rw [Source.text, List.length_append, length_cons, List.length_append]
      omega
    obtain ⟨s', ran, after⟩ := insertEnergyCheck_woven t ready other low
      (Nat.le_add_right start (Source.loop type loops head last body tail).text.length) high [59] true
    refine ⟨s', ?_, after⟩
    rw [← ran, size]
    cases type <;> first | rfl | cases loops

theorem enter_other {parent : Option NodeData} {data : NodeData} (plain : data.type.isLoop = false)
    (children : Children) (s : Editing code) : t.enter false parent data children s = some s := by
  simp [Transpiler.enter, plain]

theorem find_body {head : Pieces} (fields : .body ∉ head.fields) (proper : head.Proper t.visitorKeys) (offset : Nat)
    (others : Children) : (head.place offset others).find .body = others.find .body := by
  induction head using Pieces.rec (motive_1 := fun _ => True) generalizing offset with
  | node | loop | block | empty => trivial
  | nil => rfl
  | token text rest ih => exact ih fields proper _
  | child field child rest _ ih =>
    obtain ⟨apart, later⟩ := not_or.mp (mt mem_cons.mpr fields)
    exact (if_neg (Ne.symm apart)).trans (ih later proper.2 _)
  | twin field name size rest ih => exact (if_neg proper.1).trans (ih fields proper.2 _)

theorem fields_woven {data : NodeData} {children : Children} {pieces : Nat → List (Field × JsString)}
    (field : ∀ key (s : Editing code) gaps, Woven gaps s → ∃ s',
      t.replaceField false data key children s = some s' ∧ Woven (fun p => gaps p ++ under key (pieces p)) s')
    (keys : List Field) :
    ∀ (s : Editing code) gaps, Woven gaps s →
      ∃ s', keys.foldlM (fun s key => t.replaceField false data key children s) s = some s' ∧
        Woven (fun p => gaps p ++ keys.flatMap fun key => under key (pieces p)) s' := by
  induction keys with
  | nil => exact fun s gaps woven => ⟨s, rfl, woven_congr_gaps woven fun p => (append_nil _).symm⟩
  | cons key rest ih =>
    intro s gaps woven
    obtain ⟨middle, ran, wovenMiddle⟩ := field key s gaps woven
    obtain ⟨s', ranRest, after⟩ := ih middle _ wovenMiddle
    refine ⟨s', ?_, woven_congr_gaps after fun p => ?_⟩
    · rw [List.foldlM_cons, ran]
      exact ranRest
    · rw [List.flatMap_cons, append_assoc]

theorem fields_gaps {p : Nat} (pieces : Pieces) (offset : Nat) :
    ∀ piece ∈ pieces.gaps p offset, piece.1 ∈ pieces.fields := by
  induction pieces using Pieces.rec (motive_1 := fun _ => True) generalizing offset with
  | node | loop | block | empty => trivial
  | nil => exact List.forall_mem_nil _
  | token text rest ih => exact ih _
  | child field child rest _ ih =>
    refine forall_mem_cons.mpr ⟨List.mem_cons_self, fun piece member => ?_⟩
    exact List.mem_cons_of_mem _ (ih _ piece member)
  | twin field name size rest ih => exact ih _

theorem leaf_woven (woven : Woven gaps s) (data : NodeData)
    (plain : data.type.isLoop = false) (parent : Option NodeData) :
    ∃ s', t.replace false parent (.node data .nil) s = some s' ∧ Woven (fun p => gaps p ++ []) s' := by
  refine ⟨s, ?_, woven_congr_gaps woven fun p => (append_nil _).symm⟩
  have still : ∀ keys : List Field, keys.foldlM (fun s key => t.replaceField false data key .nil s) s = some s := by
    intro keys
    induction keys with
    | nil => rfl
    | cons key rest ih => exact ih
  rw [Transpiler.replace, enter_other t plain, bind_some]
  exact still _

theorem child_woven (key field : Field) {child : Node} {gap : Nat → JsString}
    (replaced : ∀ parent gaps (s : Editing code), Woven gaps s → ∃ s',
      t.replace false parent child s = some s' ∧ Woven (fun p => gaps p ++ gap p) s')
    (woven : Woven gaps s) (data : NodeData) :
    ∃ s', (if field = key then t.replace false (some data) child s else some s) = some s' ∧
      Woven (fun p => gaps p ++ if field = key then gap p else []) s' := by
  split
  · exact replaced _ gaps s woven
  · exact ⟨s, rfl, woven_congr_gaps woven fun p => (append_nil _).symm⟩

mutual

/-- The edits of a program put into its text what its gaps say. -/
theorem replace_woven (distinct : ∀ type, (t.visitorKeys type).Nodup) (c : Source)
    (proper : c.Proper t.visitorKeys) {offset : Nat} (inside : offset + c.text.length ≤ code.length)
    {gaps : Nat → JsString} {s : Editing code} (woven : Woven gaps s) (parent : Option NodeData) :
    ∃ s', t.replace false parent (c.place offset) s = some s' ∧ Woven (fun p => gaps p ++ c.gap p offset) s' := by
  cases c with
  | node type plain isAsync method pieces =>
    have other : type.isLoop = false := by cases type <;> first | rfl | cases plain
    obtain ⟨s', ran, after⟩ := fields_woven t (fun key s gaps woven =>
      replaceField_woven distinct pieces proper.2 inside woven
        ⟨⟨offset, offset + pieces.text.length⟩, type, isAsync, method⟩ key .nil)
      (t.visitorKeys type) s gaps woven
    refine ⟨s', ?_, woven_congr_gaps after fun p => ?_⟩
    · rw [Source.place, Transpiler.replace, enter_other t other, bind_some]
      exact ran
    · rw [texts_keys (lone_gaps p pieces offset) (distinct type) fun piece member =>
        proper.1 _ (fields_gaps pieces offset piece member)]
      rfl
  | loop type loops head last body tail =>
    obtain ⟨fields, visited, _, properHead, properBody, properTail⟩ := proper
    rw [Source.text, List.length_append, length_cons, List.length_append] at inside
    obtain ⟨checked, ranCheck, wovenChecked⟩ :=
      check_woven t woven body (show 0 < offset + head.text.length + 1 by omega) (by omega)
    have headInside : offset + head.text.length ≤ code.length := by omega
    have bodyInside : offset + head.text.length + 1 + body.text.length ≤ code.length := by omega
    have tailInside : offset + head.text.length + 1 + body.text.length + tail.text.length ≤ code.length := by omega
    have field : ∀ data key (s : Editing code) gaps, Woven gaps s → ∃ s', t.replaceField false data key
        (head.place offset (.cons .body (body.place (offset + head.text.length + 1))
          (tail.place (offset + head.text.length + 1 + body.text.length) .nil))) s = some s' ∧
        Woven (fun p => gaps p ++ under key (head.gaps p offset ++
          (.body, body.gap p (offset + head.text.length + 1)) ::
            tail.gaps p (offset + head.text.length + 1 + body.text.length))) s' := by
      intro data key s gaps woven
      obtain ⟨first, ranHead, wovenHead⟩ := replaceField_woven distinct head properHead headInside woven data key
        (.cons .body (body.place (offset + head.text.length + 1))
          (tail.place (offset + head.text.length + 1 + body.text.length) .nil))
      obtain ⟨second, ranBody, wovenBody⟩ := child_woven t key .body (fun parent gaps s woven =>
        replace_woven distinct body properBody bodyInside woven parent) wovenHead data
      obtain ⟨third, ranTail, wovenTail⟩ :=
        replaceField_woven distinct tail properTail tailInside wovenBody data key .nil
      refine ⟨third, ?_, woven_congr_gaps wovenTail fun p => ?_⟩
      · rw [ranHead, Transpiler.replaceField, ranBody, bind_some]
        exact ranTail
      · rw [under_append, under_cons, append_assoc, append_assoc]
    obtain ⟨s', ran, after⟩ := fields_woven t (field _) (t.visitorKeys type) checked _ wovenChecked
    refine ⟨s', ?_, woven_congr_gaps after fun p => ?_⟩
    · rw [Source.place, Transpiler.replace, Transpiler.enter, if_pos loops, find_body t fields properHead]
      exact (congrArg (fun entered => Option.bind entered _) ranCheck).trans ran
    · rw [texts_keys (lone_loop p head body tail offset) (distinct type), append_assoc]
      · rfl
      · intro piece member
        refine visited _ ?_
        rcases List.mem_append.mp member with early | late
        · exact List.mem_append_left _ (fields_gaps head offset piece early)
        · rcases mem_cons.mp late with rfl | later
          · exact List.mem_append_right _ List.mem_cons_self
          · exact List.mem_append_right _ (List.mem_cons_of_mem _ (fields_gaps tail _ piece later))
  | block pieces =>
    rw [Source.text, length_cons, List.length_append, length_singleton] at inside
    have piecesInside : offset + 1 + pieces.text.length ≤ code.length := by omega
    obtain ⟨s', ran, after⟩ := fields_woven t (fun key s gaps woven =>
      replaceField_woven distinct pieces proper.2 piecesInside woven
        ⟨⟨offset, offset + pieces.text.length + 2⟩, .blockStatement, false, false⟩ key .nil)
      (t.visitorKeys .blockStatement) s gaps woven
    refine ⟨s', ?_, woven_congr_gaps after fun p => ?_⟩
    · rw [Source.place, Transpiler.replace, enter_other t rfl, bind_some]
      exact ran
    · rw [texts_keys (lone_gaps p pieces (offset + 1)) (distinct .blockStatement) fun piece member =>
        proper.1 _ (fields_gaps pieces (offset + 1) piece member)]
      rfl
  | empty =>
    exact leaf_woven t woven ⟨⟨offset, offset + 1⟩, .emptyStatement, false, false⟩ rfl parent

theorem replaceField_woven (distinct : ∀ type, (t.visitorKeys type).Nodup) (pieces : Pieces)
    (proper : pieces.Proper t.visitorKeys) {offset : Nat} (inside : offset + pieces.text.length ≤ code.length)
    {gaps : Nat → JsString} {s : Editing code} (woven : Woven gaps s) (data : NodeData) (key : Field)
    (others : Children) :
    ∃ s', t.replaceField false data key (pieces.place offset others) s = t.replaceField false data key others s' ∧
      Woven (fun p => gaps p ++ under key (pieces.gaps p offset)) s' := by
  cases pieces with
  | nil => exact ⟨s, rfl, woven_congr_gaps woven fun p => (append_nil _).symm⟩
  | token text rest =>
    rw [Pieces.text, List.length_append] at inside
    exact replaceField_woven distinct rest proper (by omega) woven data key others
  | child field child rest =>
    rw [Pieces.text, List.length_append] at inside
    have childInside : offset + child.text.length ≤ code.length := by omega
    have restInside : offset + child.text.length + rest.text.length ≤ code.length := by omega
    obtain ⟨first, ranChild, wovenChild⟩ := child_woven t key field (fun parent gaps s woven =>
      replace_woven distinct child proper.1 childInside woven parent) woven data
    obtain ⟨s', ranRest, after⟩ := replaceField_woven distinct rest proper.2 restInside wovenChild data key others
    refine ⟨s', ?_, woven_congr_gaps after fun p => ?_⟩
    · rw [Pieces.place, Transpiler.replaceField, ranChild, bind_some]
      exact ranRest
    · rw [Pieces.gaps, under_cons, append_assoc]
  | twin field name size rest =>
    obtain ⟨first, ranTwin, wovenTwin⟩ := child_woven t key field (fun parent gaps s woven =>
      leaf_woven t woven ⟨⟨offset, offset + size⟩, .other name, false, false⟩ rfl parent) woven data
    obtain ⟨s', ranRest, after⟩ := replaceField_woven distinct rest proper.2 inside wovenTwin data key others
    refine ⟨s', ?_, woven_congr_gaps after fun p => ?_⟩
    · rw [Pieces.place, Transpiler.replaceField, ranTwin, bind_some]
      exact ranRest
    · rw [ite_self, append_nil]
      rfl

end

end Traversal

/-! ### Results -/

theorem fresh_paid {t : Transpiler} {sourceOf : JsString → Option Source} (grammar : Grammar t sourceOf)
    {code : JsString} (unmacroed : replaceMacros code = code) {c : Source} (read : sourceOf code = some c) :
    t.fresh false code = .code c.paid.text := by
  have text := grammar.text code c read
  have proper := grammar.proper code c read
  obtain ⟨s, ran, after⟩ := @replace_woven t code grammar.keys c proper 0 (by rw [text, Nat.zero_add]) _ _
    (start_woven code) none
  have done : visible s.doc.items = c.paid.text := by
    rw [visible_marks after.present, after.line, unit_woven, ← text]
    exact spread_paid c proper fun p _ _ => rfl
  rw [Transpiler.fresh, Transpiler.edited, unmacroed, grammar.tree code c read, Option.map_some, ran]
  exact congrArg Outcome.code done

/-- The result for a program is read as the program whose loops pay. -/
theorem loops_pay {t : Transpiler} {sourceOf : JsString → Option Source} (grammar : Grammar t sourceOf)
    {code : JsString} {node : Node} (unmacroed : replaceMacros code = code) (parsed : t.parse code = some node)
    (plain : node.hasJSX = false) :
    ∃ c, sourceOf code = some c ∧ c.place 0 = node ∧ (c.spaced = true → ∃ text,
      t.fresh false code = .code text ∧ sourceOf text = some c.paid ∧ t.parse text = some (c.paid.place 0)) := by
  obtain ⟨c, read⟩ := grammar.reads code node parsed plain
  have tree := grammar.tree code c read
  refine ⟨c, read, Option.some.inj (tree.symm.trans parsed), fun spaced => ?_⟩
  have again : sourceOf c.text = some c := by rw [grammar.text code c read, read]
  have readPaid := grammar.reads_paid again spaced
  exact ⟨c.paid.text, fresh_paid grammar unmacroed read, readPaid, grammar.tree _ _ readPaid⟩

/-! A parser of programs that are one loop. -/

section Sole

/-- The body of the loop, after it has paid some times. -/
def soleBody : Nat → Source
  | 0 => .empty
  | count + 1 => (soleBody count).pay

def soleHead : JsString := JsString.lit ['f', 'o', 'r', '(', ';', ';']

def sole (count : Nat) : Source :=
  .node (.other [80]) rfl false false
    (.child .body (.loop .forStatement rfl (.token soleHead .nil) 41 (soleBody count) .nil) .nil)

def soleOf (text : JsString) : Option Source :=
  ((List.range (text.length + 1)).find? fun count => (sole count).text == text).map sole

def soleTranspiler : Transpiler where
  parse text := (soleOf text).map fun c => c.place 0
  visitorKeys
    | .expressionStatement => [.expression]
    | .other name => if name = callType then [.other calleeField] else [.body]
    | _ => [.body]
  merges _ _ := true
  jsxFactory := [104]
  jsxFragment := [70]

def emptyLoop : JsString := soleHead ++ [41, 59]

theorem length_wrapped (statement : Source) : statement.text.length <
    (Source.block (.child .body callStatement (.child .body statement .nil))).text.length := by
  rw [text_wrapped]
  simp only [length_cons, List.length_append]
  omega

theorem length_pay (c : Source) : c.text.length < c.pay.text.length := by
  cases c with
  | node type plain isAsync method pieces => exact length_wrapped _
  | loop type loops head last body tail => exact length_wrapped _
  | block pieces =>
    rw [Source.pay, Source.text, Source.text, Pieces.text, text_callStatement]
    simp only [length_cons, List.length_append]
    omega
  | empty => decide

theorem strictMono_sole : StrictMono fun count => (sole count).text.length := by
  refine strictMono_nat_of_lt_succ fun count => ?_
  have grows := length_pay (soleBody count)
  simp only [sole, Source.text, Pieces.text, List.length_append, length_cons, append_nil]
  exact Nat.add_lt_add_left (Nat.add_lt_add_right grows 1) _

theorem soleOf_iff (text : JsString) (c : Source) :
    soleOf text = some c ↔ ∃ count, c = sole count ∧ (sole count).text = text := by
  constructor
  · intro found
    obtain ⟨count, first, rfl⟩ := Option.map_eq_some_iff.mp found
    exact ⟨count, rfl, by simpa using List.find?_some first⟩
  · rintro ⟨count, rfl, rfl⟩
    have small : count < (sole count).text.length + 1 := Nat.lt_succ_of_le (strictMono_sole.le_apply)
    cases found : (List.range ((sole count).text.length + 1)).find?
        (fun other => (sole other).text == (sole count).text) with
    | none => exact absurd (List.find?_eq_none.mp found count (List.mem_range.mpr small)) (by simp)
    | some other =>
      have same : (sole other).text = (sole count).text := by simpa using List.find?_some found
      have equal : other = count := strictMono_sole.injective (congrArg List.length same)
      rw [soleOf, found, equal]
      rfl

theorem wrapped_loopless (statement : Source) :
    (Source.block (.child .body callStatement (.child .body statement .nil))).loopless = statement.loopless := by
  have call : callStatement.loopless = true := rfl
  rw [Source.loopless, Pieces.loopless, Pieces.loopless, Pieces.loopless, call, Bool.true_and, Bool.and_true]

theorem pay_loopless (c : Source) (plain : c.loopless = true) : c.pay.loopless = true := by
  cases c with
  | node type plain' isAsync method pieces => exact (wrapped_loopless _).trans plain
  | loop type loops head last body tail => cases plain
  | block pieces => exact Bool.and_eq_true_iff.mpr ⟨rfl, plain⟩
  | empty => rfl

theorem soleBody_loopless (count : Nat) : (soleBody count).loopless = true := by
  induction count with
  | zero => rfl
  | succ count ih => exact pay_loopless _ ih

theorem pays_sole {count : Nat} {c : Source} (step : Pays (sole count) c) : c = sole (count + 1) := by
  cases step with
  | node inside =>
    cases inside with
    | rest more => cases more
    | child inLoop =>
      cases inLoop with
      | loop apart => rfl
      | head more =>
        cases more with
        | token none => cases none
      | body more => exact absurd more (not_pays (soleBody_loopless count))
      | tail more => cases more

theorem pay_proper {c : Source} (proper : c.Proper soleTranspiler.visitorKeys) :
    c.pay.Proper soleTranspiler.visitorKeys := by
  have call : callStatement.Proper soleTranspiler.visitorKeys :=
    ⟨by decide, ⟨by decide, ⟨by decide, trivial⟩, trivial⟩, trivial⟩
  have wrapped : ∀ statement : Source, statement.Proper soleTranspiler.visitorKeys →
      (Source.block (.child .body callStatement (.child .body statement .nil))).Proper soleTranspiler.visitorKeys :=
    fun statement own =>
      ⟨forall_mem_cons.mpr ⟨by decide, List.forall_mem_singleton.mpr (by decide)⟩, call, own, trivial⟩
  cases c with
  | node type plain isAsync method pieces => exact wrapped _ proper
  | loop type loops head last body tail => exact wrapped _ proper
  | block pieces => exact ⟨forall_mem_cons.mpr ⟨by decide, proper.1⟩, call, proper.2⟩
  | empty => exact call

theorem sole_proper (count : Nat) : (sole count).Proper soleTranspiler.visitorKeys := by
  have body : (soleBody count).Proper soleTranspiler.visitorKeys ∧ (soleBody count).text ≠ [] := by
    induction count with
    | zero => exact ⟨trivial, cons_ne_nil _ _⟩
    | succ count ih =>
      exact ⟨pay_proper ih.1, List.ne_nil_of_length_pos (Nat.zero_lt_of_lt (length_pay (soleBody count)))⟩
  refine ⟨List.forall_mem_singleton.mpr (by decide), ⟨?_, trivial⟩⟩
  exact ⟨by decide, by decide, body.2, trivial, body.1, trivial⟩

theorem soleGrammar : Grammar soleTranspiler soleOf where
  keys type := by
    cases type with
    | other name =>
      simp only [soleTranspiler]
      split <;> decide
    | _ => decide
  reads text node parsed plain := by
    obtain ⟨c, read, _⟩ := Option.map_eq_some_iff.mp parsed
    exact ⟨c, read⟩
  text text c read := by
    obtain ⟨count, rfl, same⟩ := (soleOf_iff text c).mp read
    exact same
  tree text c read := congrArg (Option.map fun c : Source => c.place 0) read
  proper text c read := by
    obtain ⟨count, rfl, _⟩ := (soleOf_iff text c).mp read
    exact sole_proper count
  pays c c' read step := by
    obtain ⟨count, rfl, _⟩ := (soleOf_iff _ c).mp read
    exact (soleOf_iff _ c').mpr ⟨count + 1, pays_sole step, by rw [pays_sole step]⟩

theorem read_emptyLoop : soleOf emptyLoop = some (sole 0) := (soleOf_iff emptyLoop (sole 0)).mpr ⟨0, rfl, rfl⟩

theorem emptyLoop_pays : ∃ text, soleTranspiler.fresh false emptyLoop = .code text ∧
    soleOf text = some (sole 1) ∧ soleTranspiler.parse text = some ((sole 1).place 0) := by
  have parsed : soleTranspiler.parse emptyLoop = some ((sole 0).place 0) :=
    congrArg (Option.map fun c : Source => c.place 0) read_emptyLoop
  obtain ⟨c, read, _, made⟩ := loops_pay soleGrammar (by decide) parsed rfl
  obtain rfl := Option.some.inj (read_emptyLoop.symm.trans read)
  exact made rfl

def Node.child (field : Field) : Node → Option Node
  | .node _ children => children.find field
  | _ => none

/-- The body of the loop becomes a statement that is not a block. -/
theorem emptyLoop_without_block : Grammar soleTranspiler soleOf ∧ soleOf emptyLoop = some (sole 0) ∧
    ¬ ∃ text node body, soleTranspiler.fresh false emptyLoop = .code text ∧
      soleTranspiler.parse text = some node ∧ (node.child .body).bind (Node.child .body) = some body ∧
      body.data.type = .blockStatement := by
  refine ⟨soleGrammar, read_emptyLoop, ?_⟩
  rintro ⟨text, node, body, made, parsed, found, block⟩
  rw [fresh_paid soleGrammar (by decide) read_emptyLoop] at made
  have again : soleOf (sole 0).paid.text = some (sole 1) := (soleOf_iff _ (sole 1)).mpr ⟨1, rfl, rfl⟩
  have read := congrArg (Option.map fun c : Source => c.place 0) again
  obtain rfl := Outcome.code.inj made
  obtain rfl := Option.some.inj (read.symm.trans parsed)
  obtain rfl := Option.some.inj found
  cases block

end Sole

end CasualOS.TranspiledCode
