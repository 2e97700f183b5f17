import Arbor.Proofs.Json.Numeral
import Arbor.Proofs.Json.Text

/-! # Printed JSON reads back

What the reader makes of a printed value is told by the value alone: texts, flags and the
shape stay, a number becomes the value of its own text, a number that is not finite becomes
`null`, and what is nested too deeply is refused.
-/

namespace Arbor.Json

def rereadNumber? (cs : List Char) : Option Json := (numeral? cs).bind fun n => n.1.value?

mutual

/-- What the reader makes of a printed value within `depth` more levels of nesting. -/
def reread? : (depth : Nat) → Json → Option Json
  | _, null => some null
  | _, bool b => some (bool b)
  | _, int n => rereadNumber? (writeInt n)
  | _, real x => if x.isFinite then rereadNumber? (writeReal x) else some null
  | _, text s => some (text s)
  | 0, list _ => none
  | depth + 1, list items => (rereadItems? depth items).map list
  | 0, object _ => none
  | depth + 1, object fields => (rereadFields? depth fields).map object

def rereadItems? : (depth : Nat) → List Json → Option (List Json)
  | _, [] => some []
  | depth, v :: rest => do
    let v ← reread? depth v
    let rest ← rereadItems? depth rest
    some (v :: rest)

def rereadFields? : (depth : Nat) → List (String × Json) → Option (List (String × Json))
  | _, [] => some []
  | depth, (k, v) :: rest => do
    let v ← reread? depth v
    let rest ← rereadFields? depth rest
    some ((k, v) :: rest)

end

/-! ## What the reader does, by the first character -/

section Reader

variable (fuel depth : Nat) (r : List Char)

theorem value_quote {cs t : List Char} (h : text? (r.length + 1) r = some (cs, t)) :
    value? (fuel + 1) depth ('"' :: r) = some (text (String.ofList cs), t) := by
  rw [value?, skipBlanks_cons (by decide)]
  simp [h]

theorem value_bracket_nil :
    value? (fuel + 1) (depth + 1) ('[' :: ']' :: r) = some (list [], r) := by
  rw [value?, skipBlanks_cons (by decide)]
  rfl

theorem value_bracket {c : Char} (hb : isBlank c = false) (hc : c ≠ ']') :
    value? (fuel + 1) (depth + 1) ('[' :: c :: r) =
      (items? fuel depth (c :: r)).map fun x => (list x.1, x.2) := by
  rw [value?, skipBlanks_cons (by decide)]
  cases h : items? fuel depth (c :: r) <;> simp [skipBlanks_cons hb, hc, h]

theorem value_brace_zero : value? (fuel + 1) 0 ('\x7b' :: r) = none := by
  rw [value?, skipBlanks_cons (by decide)]
  rfl

theorem value_brace_nil :
    value? (fuel + 1) (depth + 1) ('\x7b' :: '\x7d' :: r) = some (object [], r) := by
  rw [value?, skipBlanks_cons (by decide)]
  rfl

theorem value_brace :
    value? (fuel + 1) (depth + 1) ('\x7b' :: '"' :: r) =
      (fields? fuel depth ('"' :: r)).map fun x => (object x.1, x.2) := by
  rw [value?, skipBlanks_cons (by decide)]
  cases h : fields? fuel depth ('"' :: r) <;>
    simp [skipBlanks_cons (show isBlank '"' = false by decide), h]

variable {fuel depth r} {v : Json} {s t cs : List Char}

theorem items_last (h : value? fuel depth s = some (v, ']' :: r)) :
    items? (fuel + 1) depth s = some ([v], r) := by
  rw [items?, h]
  rfl

theorem items_more (h : value? fuel depth s = some (v, ',' :: t)) :
    items? (fuel + 1) depth s = (items? fuel depth t).map fun x => (v :: x.1, x.2) := by
  rw [items?, h]
  cases hi : items? fuel depth t <;>
    simp [skipBlanks_cons (show isBlank ',' = false by decide), hi]

theorem fields_last (ht : text? (s.length + 1) s = some (cs, ':' :: t))
    (h : value? fuel depth t = some (v, '\x7d' :: r)) :
    fields? (fuel + 1) depth ('"' :: s) = some ([(String.ofList cs, v)], r) := by
  rw [fields?, skipBlanks_cons (by decide)]
  simp [ht, skipBlanks_cons (show isBlank ':' = false by decide), h,
    skipBlanks_cons (show isBlank '\x7d' = false by decide)]

theorem fields_more (ht : text? (s.length + 1) s = some (cs, ':' :: t))
    (h : value? fuel depth t = some (v, ',' :: r)) :
    fields? (fuel + 1) depth ('"' :: s) =
      (fields? fuel depth r).map fun x => ((String.ofList cs, v) :: x.1, x.2) := by
  rw [fields?, skipBlanks_cons (by decide)]
  cases hf : fields? fuel depth r <;>
    simp [ht, skipBlanks_cons (show isBlank ':' = false by decide), h,
      skipBlanks_cons (show isBlank ',' = false by decide), hf]

end Reader

/-! ## Numbers -/

def StartsNumber (c : Char) : Prop := c = '-' ∨ c.isDigit = true

theorem ne_of_startsNumber {c d : Char} (h : StartsNumber c) (hd : d ≠ '-')
    (hd' : d.isDigit = false) : c ≠ d := by
  rintro rfl
  rcases h with h | h
  · exact hd h
  · exact absurd (h.symm.trans hd') (by decide)

theorem isBlank_of_startsNumber {c : Char} (h : StartsNumber c) : isBlank c = false := by
  have h₁ := ne_of_startsNumber h (d := ' ') (by decide) rfl
  have h₂ := ne_of_startsNumber h (d := '\n') (by decide) rfl
  have h₃ := ne_of_startsNumber h (d := '\t') (by decide) rfl
  have h₄ := ne_of_startsNumber h (d := '\r') (by decide) rfl
  simp [isBlank, h₁, h₂, h₃, h₄]

theorem Numeral.exists_text_eq_cons {n : Numeral} (h : n.Digital) :
    ∃ c t, n.text = c :: t ∧ StartsNumber c := by
  unfold text
  cases n.negative
  · obtain ⟨d, ds, hw⟩ := List.exists_cons_of_ne_nil h.whole_ne_nil
    exact ⟨d, _, by simp [hw]; rfl, Or.inr (h.whole d (hw ▸ List.mem_cons_self))⟩
  · exact ⟨'-', _, rfl, Or.inl rfl⟩

theorem value_text {n : Numeral} (h : n.Digital) {r : List Char} (hr : Ends r)
    (fuel depth : Nat) :
    value? (fuel + 1) depth (n.text ++ r) = (rereadNumber? n.text).map (·, r) := by
  obtain ⟨c, t, ht, hc⟩ := Numeral.exists_text_eq_cons h
  have hnum := Numeral.numeral_text h hr
  have hnum' := Numeral.numeral_text h ends_nil
  rw [List.append_nil] at hnum'
  rw [ht, List.cons_append] at hnum
  have h₁ := ne_of_startsNumber hc (d := '"') (by decide) rfl
  have h₂ := ne_of_startsNumber hc (d := '[') (by decide) rfl
  have h₃ := ne_of_startsNumber hc (d := '\x7b') (by decide) rfl
  have h₄ := ne_of_startsNumber hc (d := 'n') (by decide) rfl
  have h₅ := ne_of_startsNumber hc (d := 't') (by decide) rfl
  have h₆ := ne_of_startsNumber hc (d := 'f') (by decide) rfl
  rw [rereadNumber?, hnum', ht, List.cons_append, value?,
    skipBlanks_cons (isBlank_of_startsNumber hc)]
  by_cases hp : n.padded
  · simp [h₁, h₂, h₃, h₄, h₅, h₆, hnum, hp]
  · cases hv : n.value? <;> simp [h₁, h₂, h₃, h₄, h₅, h₆, hnum, hp, hv]

theorem exists_write_eq_cons (v : Json) :
    ∃ c t, v.write = c :: t ∧ isBlank c = false ∧ c ≠ ']' := by
  have hnum {n : Numeral} (h : n.Digital) :
      ∃ c t, n.text = c :: t ∧ isBlank c = false ∧ c ≠ ']' := by
    obtain ⟨c, t, ht, hc⟩ := Numeral.exists_text_eq_cons h
    exact ⟨c, t, ht, isBlank_of_startsNumber hc, ne_of_startsNumber hc (by decide) rfl⟩
  cases v with
  | null => exact ⟨'n', _, rfl, by decide, by decide⟩
  | bool b => cases b <;> exact ⟨_, _, rfl, by decide, by decide⟩
  | int m =>
    obtain ⟨n, hn, ht⟩ := Numeral.exists_text_writeInt m
    rw [write, ht]
    exact hnum hn
  | real x =>
    by_cases hx : x.isFinite = true
    · obtain ⟨n, hn, ht⟩ := Numeral.exists_text_writeReal hx
      rw [write, ht]
      exact hnum hn
    · rw [write, writeReal, if_neg hx]
      exact ⟨'n', _, rfl, by decide, by decide⟩
  | text s => exact ⟨'"', _, rfl, by decide, by decide⟩
  | list items => exact ⟨'[', _, by rw [write]; rfl, by decide, by decide⟩
  | object fields => exact ⟨'\x7b', _, by rw [write]; rfl, by decide, by decide⟩

theorem writeItems_cons (v : Json) {rest : List Json} (h : rest ≠ []) :
    writeItems (v :: rest) = v.write ++ ',' :: writeItems rest := by
  obtain ⟨w, rest, rfl⟩ := List.exists_cons_of_ne_nil h
  rw [writeItems]
  simp

theorem writeFields_cons (k : String) (v : Json) {rest : List (String × Json)} (h : rest ≠ []) :
    writeFields ((k, v) :: rest) = writeText k ++ ':' :: (v.write ++ ',' :: writeFields rest) := by
  obtain ⟨w, rest, rfl⟩ := List.exists_cons_of_ne_nil h
  rw [writeFields]
  · simp
  · simp

theorem exists_writeItems_eq_cons {vs : List Json} (h : vs ≠ []) :
    ∃ c t, writeItems vs = c :: t ∧ isBlank c = false ∧ c ≠ ']' := by
  obtain ⟨v, rest, rfl⟩ := List.exists_cons_of_ne_nil h
  obtain ⟨c, t, ht, hc⟩ := exists_write_eq_cons v
  by_cases hrest : rest = []
  · exact ⟨c, t, by rw [hrest, writeItems, ht], hc⟩
  · exact ⟨c, _, by rw [writeItems_cons v hrest, ht]; rfl, hc⟩

theorem exists_writeFields_eq_cons {fs : List (String × Json)} (h : fs ≠ []) :
    ∃ t, writeFields fs = '"' :: t := by
  obtain ⟨⟨k, v⟩, rest, rfl⟩ := List.exists_cons_of_ne_nil h
  by_cases hrest : rest = []
  · exact ⟨_, by rw [hrest, writeFields, writeText]; rfl⟩
  · exact ⟨_, by rw [writeFields_cons k v hrest, writeText]; rfl⟩

mutual

theorem value_write (v : Json) (depth fuel : Nat) (r : List Char) (hr : Ends r)
    (hf : 2 * v.write.length ≤ fuel) :
    value? fuel depth (v.write ++ r) = (reread? depth v).map (·, r) := by
  obtain ⟨c, t, ht, -⟩ := exists_write_eq_cons v
  obtain ⟨fuel, rfl⟩ : ∃ k, fuel = k + 1 := by
    refine Nat.exists_eq_add_one_of_ne_zero ?_
    rw [ht, List.length_cons] at hf
    omega
  match v with
  | null => rfl
  | bool true => rfl
  | bool false => rfl
  | int m =>
    obtain ⟨n, hn, ht⟩ := Numeral.exists_text_writeInt m
    rw [write, reread?, ht]
    exact value_text hn hr fuel depth
  | real x =>
    by_cases hx : x.isFinite = true
    · obtain ⟨n, hn, ht⟩ := Numeral.exists_text_writeReal hx
      rw [write, reread?, if_pos hx, ht]
      exact value_text hn hr fuel depth
    · rw [write, reread?, if_neg hx, writeReal, if_neg hx]
      rfl
  | text s =>
    obtain ⟨u, hu, hs⟩ := text_of_writeText s r
    rw [write, hu, value_quote fuel depth u hs, String.ofList_toList]
    rfl
  | list items =>
    have htext : (list items).write ++ r = '[' :: (writeItems items ++ ']' :: r) := by
      simp [write]
    rw [htext]
    match depth with
    | 0 => rw [value_bracket_zero, reread?, Option.map_none]
    | depth + 1 =>
      rw [reread?, Option.map_map]
      by_cases hne : items = []
      · rw [hne, writeItems, List.nil_append, value_bracket_nil, rereadItems?]
        rfl
      · have hlen : 2 * (writeItems items).length + 1 ≤ fuel := by
          simp only [write, List.length_append, List.length_cons, List.length_nil] at hf
          omega
        have hitems := items_writeItems items depth fuel r hne hlen
        obtain ⟨c, t, hw, hblank, hc⟩ := exists_writeItems_eq_cons hne
        rw [hw, List.cons_append] at hitems ⊢
        rw [value_bracket fuel depth _ hblank hc, hitems, Option.map_map]
        rfl
  | object fields =>
    have htext : (object fields).write ++ r = '\x7b' :: (writeFields fields ++ '\x7d' :: r) := by
      simp [write]
    rw [htext]
    match depth with
    | 0 => rw [value_brace_zero, reread?, Option.map_none]
    | depth + 1 =>
      rw [reread?, Option.map_map]
      by_cases hne : fields = []
      · rw [hne, writeFields, List.nil_append, value_brace_nil, rereadFields?]
        rfl
      · have hlen : 2 * (writeFields fields).length + 1 ≤ fuel := by
          simp only [write, List.length_append, List.length_cons, List.length_nil] at hf
          omega
        have hfields := fields_writeFields fields depth fuel r hne hlen
        obtain ⟨t, hw⟩ := exists_writeFields_eq_cons hne
        rw [hw, List.cons_append] at hfields ⊢
        rw [value_brace fuel depth, hfields, Option.map_map]
        rfl

theorem items_writeItems (vs : List Json) (depth fuel : Nat) (r : List Char) (hne : vs ≠ [])
    (hf : 2 * (writeItems vs).length + 1 ≤ fuel) :
    items? fuel depth (writeItems vs ++ ']' :: r) = (rereadItems? depth vs).map (·, r) := by
  obtain ⟨fuel, rfl⟩ : ∃ k, fuel = k + 1 := Nat.exists_eq_add_one_of_ne_zero (by omega)
  match vs with
  | [] => exact absurd rfl hne
  | v :: rest =>
    rw [rereadItems?]
    by_cases hrest : rest = []
    · rw [hrest, writeItems] at hf ⊢
      have hv := value_write v depth fuel (']' :: r) (ends_bracket r) (by omega)
      cases hread : reread? depth v with
      | none =>
        rw [hread] at hv
        exact items_of_none hv
      | some w =>
        rw [hread] at hv
        exact items_last hv
    · rw [writeItems_cons v hrest, List.length_append, List.length_cons] at hf
      have hv := value_write v depth fuel (',' :: (writeItems rest ++ ']' :: r)) (ends_comma _)
        (by omega)
      rw [writeItems_cons v hrest, List.append_assoc, List.cons_append]
      cases hread : reread? depth v with
      | none =>
        rw [hread] at hv
        exact items_of_none hv
      | some w =>
        rw [hread] at hv
        rw [items_more hv, items_writeItems rest depth fuel r hrest (by omega), Option.map_map]
        cases rereadItems? depth rest <;> rfl

theorem fields_writeFields (fs : List (String × Json)) (depth fuel : Nat) (r : List Char)
    (hne : fs ≠ []) (hf : 2 * (writeFields fs).length + 1 ≤ fuel) :
    fields? fuel depth (writeFields fs ++ '\x7d' :: r) = (rereadFields? depth fs).map (·, r) := by
  obtain ⟨fuel, rfl⟩ : ∃ k, fuel = k + 1 := Nat.exists_eq_add_one_of_ne_zero (by omega)
  match fs with
  | [] => exact absurd rfl hne
  | (k, v) :: rest =>
    rw [rereadFields?]
    by_cases hrest : rest = []
    · rw [hrest, writeFields] at hf ⊢
      simp only [List.length_append, List.length_cons] at hf
      have hv := value_write v depth fuel ('\x7d' :: r) (ends_brace r) (by omega)
      obtain ⟨u, hu, hs⟩ := text_of_writeText k (':' :: (v.write ++ '\x7d' :: r))
      rw [List.append_assoc, List.cons_append, hu]
      cases hread : reread? depth v with
      | none =>
        rw [hread] at hv
        exact fields_of_none hs hv
      | some w =>
        rw [hread] at hv
        rw [fields_last hs hv, String.ofList_toList]
        rfl
    · rw [writeFields_cons k v hrest] at hf ⊢
      simp only [List.length_append, List.length_cons] at hf
      let tail := writeFields rest ++ '\x7d' :: r
      have hv := value_write v depth fuel (',' :: tail) (ends_comma tail) (by omega)
      obtain ⟨u, hu, hs⟩ := text_of_writeText k (':' :: (v.write ++ ',' :: tail))
      have hassoc : writeText k ++ ':' :: (v.write ++ ',' :: writeFields rest) ++ '\x7d' :: r =
          writeText k ++ ':' :: (v.write ++ ',' :: tail) := by simp [tail]
      rw [hassoc, hu]
      cases hread : reread? depth v with
      | none =>
        rw [hread] at hv
        exact fields_of_none hs hv
      | some w =>
        rw [hread] at hv
        rw [fields_more hs hv, fields_writeFields rest depth fuel r hrest (by omega),
          Option.map_map, String.ofList_toList]
        cases rereadFields? depth rest <;> rfl

end

/-- What the reader makes of a printed value is told by the value alone. -/
theorem parse_compact (v : Json) : parse? v.compact = reread? maxDepth v := by
  have h := value_write v maxDepth (2 * v.write.length + 2) [] ends_nil (by omega)
  rw [List.append_nil] at h
  simp only [parse?, compact, String.toList_ofList, h]
  cases reread? maxDepth v <;> rfl

/-! ## Objects -/

section Object

variable {depth : Nat} {fields fields' : List (String × Json)}

theorem isSome_rereadFields_iff :
    (rereadFields? depth fields).isSome = true ↔
      ∀ f ∈ fields, (reread? depth f.2).isSome = true := by
  induction fields with
  | nil => simp [rereadFields?]
  | cons f fields ih =>
    obtain ⟨k, v⟩ := f
    rw [rereadFields?, List.forall_mem_cons, ← ih]
    cases reread? depth v
    · simp
    · cases rereadFields? depth fields <;> simp

theorem rereadItems_valuesOf (h : rereadFields? depth fields = some fields') (name : String) :
    rereadItems? depth (valuesOf name fields) = some (valuesOf name fields') := by
  induction fields generalizing fields' with
  | nil =>
    cases h
    rfl
  | cons f fields ih =>
    obtain ⟨k, v⟩ := f
    simp only [rereadFields?, Option.bind_eq_bind, Option.bind_eq_some_iff,
      Option.some.injEq] at h
    obtain ⟨w, hv, rest, hr, rfl⟩ := h
    have hrest := ih hr
    by_cases hk : k = name
    · simp only [valuesOf, hk, List.filter_cons, beq_self_eq_true, if_true, List.map_cons,
        rereadItems?, hv] at hrest ⊢
      rw [hrest]
      rfl
    · simpa [valuesOf, hk] using hrest

theorem rereadItems_of_forall {vs : List Json} (h : ∀ v ∈ vs, reread? depth v = some v) :
    rereadItems? depth vs = some vs := by
  induction vs with
  | nil => rfl
  | cons v vs ih =>
    obtain ⟨hv, hvs⟩ := List.forall_mem_cons.mp h
    rw [rereadItems?, hv, ih hvs]
    rfl

theorem parse_compact_object (fields : List (String × Json)) :
    parse? (object fields).compact = (rereadFields? (maxDepth - 1) fields).map object := by
  rw [parse_compact, maxDepth, reread?]

end Object

end Arbor.Json
