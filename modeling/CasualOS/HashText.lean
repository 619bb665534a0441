import CasualOS.Atom2

/-! A hash that is injective: the hashed array written out, every text with its length before it. -/

namespace CasualOS.HashText

def block (s : JsString) : JsString := List.replicate s.length 1 ++ 0 :: s

def optional : Option JsString → JsString
  | none => [0]
  | some s => 1 :: block s

theorem block_inj (s t r r' : JsString) (same : block s ++ r = block t ++ r') : s = t ∧ r = r' := by
  have lengths : ∀ (n m : Nat) (u v : JsString),
      List.replicate n (1 : CodeUnit) ++ 0 :: u = List.replicate m 1 ++ 0 :: v → n = m ∧ u = v := by
    intro n
    induction n with
    | zero =>
      intro m u v equal
      cases m with
      | zero => exact ⟨rfl, (List.cons.inj equal).2⟩
      | succ m => exact absurd (List.cons.inj equal).1 (by decide)
    | succ n ih =>
      intro m u v equal
      cases m with
      | zero => exact absurd (List.cons.inj equal).1 (by decide)
      | succ m =>
        obtain ⟨size, rest⟩ := ih m u v (List.cons.inj equal).2
        exact ⟨by rw [size], rest⟩
  simp only [block, List.append_assoc, List.cons_append] at same
  obtain ⟨size, texts⟩ := lengths _ _ _ _ same
  exact List.append_inj texts size

theorem optional_inj (s t : Option JsString) (r r' : JsString)
    (same : optional s ++ r = optional t ++ r') : s = t ∧ r = r' := by
  cases s with
  | none =>
    cases t with
    | none => exact ⟨rfl, (List.cons.inj same).2⟩
    | some t => exact absurd (List.cons.inj same).1 (by decide)
  | some s =>
    cases t with
    | none => exact absurd (List.cons.inj same).1 (by decide)
    | some t =>
      obtain ⟨text, rest⟩ := block_inj s t r r' (List.cons.inj same).2
      exact ⟨by rw [text], rest⟩

variable {T : Type} (encode : T → JsString)

def hashText (input : AtomHashInput T) : JsString :=
  optional input.causeHash ++ (block input.site ++ (block (JsString.ofInt input.timestamp) ++
    (optional (input.priority.map JsString.ofInt) ++
      (optional (input.cardinality.map AtomCardinality.group) ++
        (optional (input.cardinality.map (fun c => JsString.ofInt c.number)) ++
          encode input.value)))))

theorem hashText_injective (shown : Function.Injective encode) : Function.Injective (hashText encode) := by
  rintro ⟨causeHash, site, timestamp, priority, cardinality, value⟩
    ⟨causeHash', site', timestamp', priority', cardinality', value'⟩ same
  simp only [hashText] at same
  obtain ⟨cause, same⟩ := optional_inj _ _ _ _ same
  obtain ⟨place, same⟩ := block_inj _ _ _ _ same
  obtain ⟨time, same⟩ := block_inj _ _ _ _ same
  obtain ⟨first, same⟩ := optional_inj _ _ _ _ same
  obtain ⟨groups, same⟩ := optional_inj _ _ _ _ same
  obtain ⟨numbers, same⟩ := optional_inj _ _ _ _ same
  have priorities : priority = priority' :=
    Option.map_injective (fun _ _ equal => JsString.ofInt_injective _ _ equal) first
  have limits : cardinality = cardinality' := by
    cases cardinality with
    | none => cases cardinality' <;> simp_all
    | some c =>
      cases cardinality' with
      | none => simp at groups
      | some c' =>
        simp only [Option.map_some, Option.some.injEq] at groups numbers
        rcases c with ⟨group, number⟩
        rcases c' with ⟨group', number'⟩
        have equal : number = number' := JsString.ofInt_injective _ _ numbers
        rw [show group = group' from groups, equal]
  rw [cause, place, JsString.ofInt_injective _ _ time, priorities, limits, shown same]

def unitHash : AtomHashInput Unit → JsString := hashText (fun _ => [])

theorem unitHash_injective : Function.Injective unitHash :=
  hashText_injective _ (fun _ _ _ => rfl)

def sampleId (timestamp : Int) (priority : Field Int) : AtomId :=
  { site := JsString.lit ['a'], timestamp := timestamp, priority := priority, cardinality := .undefined }

end CasualOS.HashText
