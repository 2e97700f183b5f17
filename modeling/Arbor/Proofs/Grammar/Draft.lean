import Arbor.Config.Writing
import Arbor.Proofs.Config.Checks
import Mathlib.Data.Set.List

/-! # Drafts of grammars

A draft is refused for its first fault. All inputs of rules are looked at before anything else, then
the start word, the number of rules and last the weights. A draft without a fault is that of exactly
one grammar.
-/

namespace Arbor

/-- The first item that lacks a property, and its index. -/
structure FirstWithout {α : Type} (p : α → Prop) (xs : List α) (i : Nat) (x : α) : Prop where
  getElem : xs[i]? = some x
  lacks : ¬ p x
  before : ∀ j < i, ∀ y, xs[j]? = some y → p y

section FirstWithout

variable {α β : Type} {p : α → Prop} {xs : List α} {x y : α} {i : Nat}

theorem firstWithout_nil : ¬ FirstWithout p [] i x := by
  rintro ⟨h, -, -⟩
  cases h

theorem firstWithout_cons_iff : FirstWithout p (y :: xs) i x ↔
    ¬ p y ∧ i = 0 ∧ x = y ∨ p y ∧ ∃ j, i = j + 1 ∧ FirstWithout p xs j x := by
  constructor
  · rintro ⟨hx, hn, hb⟩
    cases i with
    | zero =>
      obtain rfl : y = x := Option.some.inj hx
      exact .inl ⟨hn, rfl, rfl⟩
    | succ j =>
      exact .inr ⟨hb 0 j.succ_pos y rfl, j, rfl, hx, hn,
        fun k hk => hb (k + 1) (Nat.succ_lt_succ hk)⟩
  · rintro (⟨hn, rfl, rfl⟩ | ⟨hy, j, rfl, hx, hn, hb⟩)
    · exact ⟨rfl, hn, fun _ hj => absurd hj (Nat.not_lt_zero _)⟩
    · refine ⟨hx, hn, fun k hk z hz => ?_⟩
      cases k with
      | zero => exact Option.some.inj hz ▸ hy
      | succ k => exact hb k (Nat.lt_of_succ_lt_succ hk) z hz

theorem FirstWithout.mem (h : FirstWithout p xs i x) : x ∈ xs := List.mem_of_getElem? h.getElem

theorem firstWithout_map_iff {f : β → α} {ys : List β} :
    FirstWithout p (ys.map f) i x ↔ ∃ y, FirstWithout (fun y => p (f y)) ys i y ∧ f y = x := by
  constructor
  · rintro ⟨hx, hn, hb⟩
    rw [List.getElem?_map, Option.map_eq_some_iff] at hx
    obtain ⟨y, hy, rfl⟩ := hx
    refine ⟨y, ⟨hy, hn, fun j hj z hz => hb j hj (f z) ?_⟩, rfl⟩
    rw [List.getElem?_map, hz, Option.map_some]
  · rintro ⟨y, ⟨hy, hn, hb⟩, rfl⟩
    refine ⟨by rw [List.getElem?_map, hy, Option.map_some], hn, fun j hj z hz => ?_⟩
    rw [List.getElem?_map, Option.map_eq_some_iff] at hz
    obtain ⟨w, hw, rfl⟩ := hz
    exact hb j hj w hw

end FirstWithout

namespace Grammar

def IsWeight (w : Float) : Prop := w.isFinite = true ∧ ¬ w < 0

/-- Every input is one symbol, there are a start word and a rule, and every weight is one. -/
structure Draft.WellFormed (d : Draft) : Prop where
  inputs : ∀ r ∈ d.rules, r.input.length = 1
  start : d.start ≠ ""
  rules : d.rules ≠ []
  weights : ∀ r ∈ d.rules, IsWeight r.weight

/-- The fault that a draft is refused for. -/
inductive Draft.FirstFault (d : Draft) : ConfigError → Prop
  | input {i : Nat} {r : RuleDraft} :
      FirstWithout (·.input.length = 1) d.rules i r → d.FirstFault (.ruleInput i r.input)
  | start : (∀ r ∈ d.rules, r.input.length = 1) → d.start = "" → d.FirstFault .emptyStart
  | rules : d.start ≠ "" → d.rules = [] → d.FirstFault .emptyRules
  | weight {i : Nat} {r : RuleDraft} {c : Char} :
      (∀ r ∈ d.rules, r.input.length = 1) → d.start ≠ "" →
      FirstWithout (IsWeight ·.weight) d.rules i r → r.input = String.singleton c →
      d.FirstFault (.weight i c r.weight)

variable {d : Draft} {g : Grammar} {e : ConfigError} {start : Word} {rules : List Rule}

/-! ## Rules -/

theorem toList_eq_singleton_iff {s : String} {c : Char} :
    s.toList = [c] ↔ s = String.singleton c := by
  rw [← String.toList_inj, String.toList_singleton]

theorem length_eq_one_iff {s : String} : s.length = 1 ↔ ∃ c, s = String.singleton c := by
  simp only [← String.length_toList, List.length_eq_one_iff, toList_eq_singleton_iff]

theorem check_rule_eq_ok_iff {d : RuleDraft} {i : Nat} {r : Rule} :
    d.check i = .ok r ↔ draftOfRule r = d := by
  obtain ⟨input, output, weight⟩ := d
  obtain ⟨c, w, x⟩ := r
  have houtput : output.toList = w ↔ String.ofList w = output := by
    rw [← String.toList_inj, String.toList_ofList, eq_comm]
  unfold RuleDraft.check draftOfRule
  rw [RuleDraft.mk.injEq, ← houtput]
  split
  · next c' hc =>
    rw [toList_eq_singleton_iff] at hc
    subst hc
    simp [eq_comm]
  · next hne =>
    refine iff_of_false (by simp) ?_
    rintro ⟨rfl, -, -⟩
    exact hne c (String.toList_singleton c)

theorem check_rule_eq_error_iff {d : RuleDraft} {i : Nat} :
    d.check i = .error e ↔ d.input.length ≠ 1 ∧ e = .ruleInput i d.input := by
  simp only [RuleDraft.check, Ne, length_eq_one_iff, ← toList_eq_singleton_iff]
  split
  · next c hc => simp [hc]
  · next hne =>
    rw [not_exists, and_iff_right hne, Except.error.injEq, eq_comm]

theorem exists_draftOfRule_iff {d : RuleDraft} :
    (∃ r, draftOfRule r = d) ↔ d.input.length = 1 := by
  constructor
  · rintro ⟨r, rfl⟩
    exact length_eq_one_iff.mpr ⟨r.input, rfl⟩
  · intro h
    cases hc : d.check 0 with
    | ok r => exact ⟨r, check_rule_eq_ok_iff.mp hc⟩
    | error e => exact absurd h (check_rule_eq_error_iff.mp hc).1

theorem checkRules_eq_ok_iff {ds : List RuleDraft} {i : Nat} :
    checkRules i ds = .ok rules ↔ rules.map draftOfRule = ds := by
  induction ds generalizing i rules with
  | nil => simp [checkRules, eq_comm]
  | cons d ds ih =>
    simp only [checkRules, bind_eq_ok_iff, check_rule_eq_ok_iff, ih, List.map_eq_cons_iff]
    constructor
    · rintro ⟨r, rfl, rs, rfl, h⟩
      exact ⟨r, rs, (Except.ok.inj h).symm, rfl, rfl⟩
    · rintro ⟨r, rs, rfl, rfl, rfl⟩
      exact ⟨r, rfl, rs, rfl, rfl⟩

theorem checkRules_eq_error_iff {ds : List RuleDraft} {k : Nat} :
    checkRules k ds = .error e ↔
      ∃ i r, FirstWithout (·.input.length = 1) ds i r ∧ e = .ruleInput (k + i) r.input := by
  induction ds generalizing k with
  | nil => simp [checkRules, firstWithout_nil]
  | cons d ds ih =>
    simp only [checkRules, bind_eq_error_iff, check_rule_eq_error_iff, check_rule_eq_ok_iff, ih,
      firstWithout_cons_iff]
    constructor
    · rintro (⟨hd, rfl⟩ | ⟨r, hr, ⟨i, q, h, rfl⟩ | ⟨rs, -, h⟩⟩)
      · exact ⟨0, d, .inl ⟨hd, rfl, rfl⟩, rfl⟩
      · exact ⟨i + 1, q, .inr ⟨exists_draftOfRule_iff.mp ⟨r, hr⟩, i, rfl, h⟩, by
          rw [Nat.add_right_comm, Nat.add_assoc]⟩
      · cases h
    · rintro ⟨i, q, ⟨hd, rfl, rfl⟩ | ⟨hd, j, rfl, h⟩, rfl⟩
      · exact .inl ⟨hd, rfl⟩
      · obtain ⟨r, hr⟩ := exists_draftOfRule_iff.mpr hd
        exact .inr ⟨r, hr, .inl ⟨j, q, h, by rw [Nat.add_right_comm, Nat.add_assoc]⟩⟩

theorem badWeight_eq_some_iff {k i : Nat} {r : Rule} : badWeight? k rules = some (i, r) ↔
    ∃ j, FirstWithout (·.weighs = true) rules j r ∧ i = k + j := by
  induction rules generalizing k with
  | nil => simp [badWeight?, firstWithout_nil]
  | cons q qs ih =>
    simp only [badWeight?, firstWithout_cons_iff]
    split
    · next hq =>
      rw [ih]
      constructor
      · rintro ⟨j, h, rfl⟩
        exact ⟨j + 1, .inr ⟨hq, j, rfl, h⟩, by rw [Nat.add_right_comm, Nat.add_assoc]⟩
      · rintro ⟨_, ⟨hn, -⟩ | ⟨-, j, rfl, h⟩, rfl⟩
        · exact absurd hq hn
        · exact ⟨j, h, by rw [Nat.add_right_comm, Nat.add_assoc]⟩
    · next hq =>
      constructor
      · intro h
        cases h
        exact ⟨0, .inl ⟨hq, rfl, rfl⟩, rfl⟩
      · rintro ⟨_, ⟨-, rfl, rfl⟩ | ⟨h, -⟩, rfl⟩
        · rfl
        · exact absurd h hq

/-! ## Grammars -/

theorem weighs_iff_isWeight {r : Rule} : r.weighs = true ↔ IsWeight r.weight := by
  simp [Rule.weighs, IsWeight]

theorem ofRules_eq_ok_iff : ofRules start rules = .ok g ↔ g.start = start ∧ g.rules = rules := by
  unfold ofRules
  constructor
  · intro h
    split at h
    · cases h
    split at h
    · cases h
    split at h
    · cases h
    · cases h
      exact ⟨rfl, rfl⟩
  · rintro ⟨rfl, rfl⟩
    rw [dif_neg g.start_ne_nil, dif_neg g.rules_ne_nil]
    split
    · next i r h =>
      obtain ⟨j, hj, -⟩ := badWeight_eq_some_iff.mp h
      exact absurd (g.weighs r hj.mem) hj.lacks
    · rfl

theorem ofRules_eq_error_iff : ofRules start rules = .error e ↔
    start = [] ∧ e = .emptyStart ∨ start ≠ [] ∧ rules = [] ∧ e = .emptyRules ∨
      start ≠ [] ∧ ∃ i r, FirstWithout (·.weighs = true) rules i r ∧
        e = .weight i r.input r.weight := by
  unfold ofRules
  constructor
  · intro h
    split at h
    · next hs =>
      cases h
      exact .inl ⟨hs, rfl⟩
    split at h
    · next hs hr =>
      cases h
      exact .inr (.inl ⟨hs, hr, rfl⟩)
    split at h
    · next hs hr i r hw =>
      obtain ⟨j, hj, hi⟩ := badWeight_eq_some_iff.mp hw
      rw [Nat.zero_add] at hi
      cases hi
      cases h
      exact .inr (.inr ⟨hs, i, r, hj, rfl⟩)
    · cases h
  · rintro (⟨rfl, rfl⟩ | ⟨hs, rfl, rfl⟩ | ⟨hs, i, r, h, rfl⟩)
    · rfl
    · rw [dif_neg hs, dif_pos rfl]
    · have hw := badWeight_eq_some_iff.mpr ⟨i, h, (Nat.zero_add i).symm⟩
      rw [dif_neg hs, dif_neg (List.ne_nil_of_mem h.mem)]
      split
      · next j q hq =>
        cases hw.symm.trans hq
        rfl
      · next hq => cases hw.symm.trans hq

theorem check_eq_ok_iff : d.check = .ok g ↔ g.toDraft = d := by
  obtain ⟨start, rules⟩ := d
  have hstart : g.start = start.toList ↔ String.ofList g.start = start := by
    rw [← String.toList_inj, String.toList_ofList]
  simp only [Draft.check, bind_eq_ok_iff, checkRules_eq_ok_iff, ofRules_eq_ok_iff, toDraft,
    Draft.mk.injEq, hstart]
  constructor
  · rintro ⟨_, hrules, hs, rfl⟩
    exact ⟨hs, hrules⟩
  · rintro ⟨hs, hrules⟩
    exact ⟨g.rules, hrules, hs, rfl⟩

theorem inputs_iff {ds : List RuleDraft} :
    (∃ rules : List Rule, rules.map draftOfRule = ds) ↔ ∀ r ∈ ds, r.input.length = 1 := by
  simp only [← exists_draftOfRule_iff]
  exact Set.ext_iff.mp (Set.range_list_map draftOfRule) ds

theorem firstWithout_weight_iff {i : Nat} {d : RuleDraft} :
    FirstWithout (IsWeight ·.weight) (rules.map draftOfRule) i d ↔
      ∃ r, FirstWithout (·.weighs = true) rules i r ∧ draftOfRule r = d := by
  simp only [firstWithout_map_iff, weighs_iff_isWeight]
  rfl

theorem check_eq_error_iff : d.check = .error e ↔ d.FirstFault e := by
  obtain ⟨start, rules⟩ := d
  simp only [Draft.check, bind_eq_error_iff, checkRules_eq_ok_iff, checkRules_eq_error_iff,
    ofRules_eq_error_iff, Nat.zero_add, String.toList_eq_nil_iff, Ne]
  constructor
  · rintro (⟨i, r, h, rfl⟩ | ⟨rs, rfl, ⟨hs, rfl⟩ | ⟨hs, rfl, rfl⟩ | ⟨hs, i, r, h, rfl⟩⟩)
    · exact .input h
    · exact .start (inputs_iff.mp ⟨rs, rfl⟩) hs
    · exact .rules hs rfl
    · have hweight := firstWithout_weight_iff.mpr ⟨r, h, rfl⟩
      have hinput : (draftOfRule r).input = String.singleton r.input := rfl
      exact .weight (inputs_iff.mp ⟨rs, rfl⟩) hs hweight hinput
  · rintro (h | ⟨hi, hs⟩ | ⟨hs, hr⟩ | @⟨i, q, c, hi, hs, h, hc⟩)
    · exact .inl ⟨_, _, h, rfl⟩
    · obtain ⟨rs, hrs⟩ := inputs_iff.mpr hi
      exact .inr ⟨rs, hrs, .inl ⟨hs, rfl⟩⟩
    · exact .inr ⟨[], hr.symm, .inr (.inl ⟨hs, rfl, rfl⟩)⟩
    · obtain ⟨rs, rfl⟩ := inputs_iff.mpr hi
      obtain ⟨r, hr, rfl⟩ := firstWithout_weight_iff.mp h
      obtain rfl : r.input = c := String.singleton_inj.mp hc
      exact .inr ⟨rs, rfl, .inr (.inr ⟨hs, i, r, hr, rfl⟩)⟩

theorem Draft.FirstFault.not_wellFormed (h : d.FirstFault e) : ¬ d.WellFormed := by
  intro hd
  cases h with
  | input h => exact h.lacks (hd.inputs _ h.mem)
  | start _ h => exact hd.start h
  | rules _ h => exact hd.rules h
  | weight _ _ h _ => exact h.lacks (hd.weights _ h.mem)

theorem wellFormed_toDraft (g : Grammar) : g.toDraft.WellFormed where
  inputs := inputs_iff.mp ⟨g.rules, rfl⟩
  start h := g.start_ne_nil (by simpa [toDraft] using h)
  rules h := g.rules_ne_nil (List.map_eq_nil_iff.mp h)
  weights := List.forall_mem_map.mpr fun r hr => weighs_iff_isWeight.mp (g.weighs r hr)

theorem exists_check_iff : (∃ g, d.check = .ok g) ↔ d.WellFormed := by
  constructor
  · rintro ⟨g, h⟩
    rw [← check_eq_ok_iff.mp h]
    exact wellFormed_toDraft g
  · intro hd
    cases h : d.check with
    | ok g => exact ⟨g, rfl⟩
    | error e => exact absurd hd (check_eq_error_iff.mp h).not_wellFormed

/-- A draft is accepted iff it is well formed, and what comes out is the grammar that has it as its
draft. Otherwise it is refused for its first fault: the first input that is not one symbol, an empty
start word, no rules, the first bad weight. So the draft of a grammar, whose parts are the fields
that are written for it, is read as this grammar again. -/
theorem check_tells_first_fault (d : Draft) :
    ((∃ g, d.check = .ok g) ↔ d.WellFormed) ∧
    (∀ g, d.check = .ok g ↔ g.toDraft = d) ∧
    (∀ e, d.check = .error e ↔ d.FirstFault e) ∧
    ∀ (g : Grammar) (id name : String), g.toDraft.check = .ok g ∧
      (Entry.mk id name g).toJson = .object
        [("id", .text id), ("name", .text name), ("axiom", .text g.toDraft.start),
          ("rules", .list (g.toDraft.rules.map fun r => .object
            [("input", .text r.input), ("output", .text r.output),
              ("probability", .real r.weight)]))] := by
  refine ⟨exists_check_iff, fun g => check_eq_ok_iff, fun e => check_eq_error_iff,
    fun g id name => ⟨check_eq_ok_iff.mpr rfl, ?_⟩⟩
  simp only [Entry.toJson, toDraft, List.map_map]
  rfl

example : (⟨"", [⟨"F", "", -1⟩, ⟨"FX", "", 1⟩]⟩ : Draft).check = .error (.ruleInput 1 "FX") := rfl

end Grammar

end Arbor
