import Arbor.Proofs.Growth.Draws
import Arbor.Proofs.Random.Rounded
import Arbor.Proofs.Selection.Sums

/-! # The scan in machine arithmetic

The first alternative stands in where no running sum exceeds the point that was drawn. In machine
arithmetic the point may be rounded up to the total, or the total may overflow, and then it does
stand in, even if it weighs nothing. Totals in the normal range are safe, whatever is drawn.
-/

namespace Arbor

open Binary64 Float.Model UnpackedFloat RandomSource

theorem Rule.weighs_iff {r : Rule} :
    r.weighs = true ↔ r.weight.isFinite = true ∧ 0 ≤ value r.weight := by
  rw [Rule.weighs, Bool.and_eq_true]
  refine and_congr_right fun hf => ?_
  have hlt := lt_iff hf isFinite_zero
  rw [value_zero] at hlt
  rw [Bool.not_eq_true', ← not_lt, ← hlt, Bool.not_eq_true]
  rfl

namespace Selection

variable {β : Type} {weight : β → Float} {items : List β} {b : β} {point : Float}

/-- The items begin with some whose running sums do not exceed the point, and the sum with the
next item does. -/
def FirstAbove (weight : β → Float) (point : Float) (items : List β) (b : β) : Prop :=
  ∃ before after, items = before ++ b :: after ∧
    (∀ shorter, shorter <+: before → Scalar.lt point (sumFrom weight 0 shorter) = false) ∧
    Scalar.lt point (sumFrom weight 0 (before ++ [b])) = true

theorem firstAbove_iff (h : Scalar.lt point 0 = false) :
    FirstAbove weight point items b ↔ firstAbove? weight point 0 items = some b := by
  simp only [firstAbove?_eq_some_iff, firstAbove?_eq_none_iff h]
  rfl

section Scan

variable (hw : ∀ b ∈ items, (weight b).isFinite = true ∧ 0 ≤ value (weight b))
  (hs : (sumFrom weight 0 items).isFinite = true) (hp : point.isFinite = true)

include hw hs hp

theorem firstAbove?_eq_none_iff_le (hp0 : 0 ≤ value point) :
    firstAbove? weight point 0 items = none ↔ value (sumFrom weight 0 items) ≤ value point := by
  rw [firstAbove?_eq_none_iff (lt_eq_false_of_nonneg hp hp0)]
  constructor
  · intro h
    have hall := h items List.prefix_rfl
    rwa [← Bool.not_eq_true, lt_iff hp hs, not_lt] at hall
  · intro h before hbefore
    obtain ⟨hfin, hle⟩ := le_sumFrom_of_prefix hw atLeastZero_zero hs hbefore
    rw [← Bool.not_eq_true, lt_iff hp hfin, not_lt]
    exact hle.trans h

theorem weight_pos_of_firstAbove (h : FirstAbove weight point items b) : 0 < value (weight b) := by
  obtain ⟨before, after, rfl, hbelow, habove⟩ := h
  have hprefix : before ++ [b] <+: before ++ b :: after := ⟨after, by simp⟩
  obtain ⟨hfb, hb0⟩ := hw b (by simp)
  obtain ⟨hfs, -⟩ := le_sumFrom_of_prefix hw atLeastZero_zero hs (List.prefix_append before _)
  obtain ⟨hfn, -⟩ := le_sumFrom_of_prefix hw atLeastZero_zero hs hprefix
  have hlow := hbelow before List.prefix_rfl
  rw [← Bool.not_eq_true, lt_iff hp hfs, not_lt] at hlow
  rw [lt_iff hp hfn, sumFrom_concat] at habove
  refine hb0.lt_of_ne fun hzero => ?_
  -- Without a weight the sum would be left where it was.
  have hsum := isRounding_add hfs hfb
  rw [← hzero, add_zero] at hsum
  obtain ⟨-, hsame⟩ := hsum.value_eq (representable_value _) (abs_value_lt _)
  rw [hsame] at habove
  exact habove.not_ge hlow

end Scan

end Selection

def DrawsFromUnit {ρ : Type} [RandomSource ρ Float] (source : ρ) : Prop :=
  let u : Float := (draw source).1
  Scalar.le 0 u = true ∧ Scalar.lt u 1 = true

theorem DrawsFromUnit.value_mem {ρ : Type} [RandomSource ρ Float] {source : ρ}
    (h : DrawsFromUnit source) :
    (draw source : Float × ρ).1.isFinite = true ∧ 0 ≤ value (draw source : Float × ρ).1 ∧
      value (draw source : Float × ρ).1 < 1 := by
  obtain ⟨hf1, hv1⟩ := ofNat_of_lt (by norm_num : 1 < 2 ^ 53)
  obtain ⟨hle, hlt⟩ := h
  have hf := isFinite_of_le_of_lt isFinite_zero hf1 hle hlt
  replace hle := (le_iff isFinite_zero hf).mp hle
  replace hlt := (lt_iff hf hf1).mp hlt
  rw [value_zero] at hle
  rw [hv1, Nat.cast_one] at hlt
  exact ⟨hf, hle, hlt⟩

theorem Script.draw_fst (x : Float) :
    (draw (⟨#[x], 0⟩ : Script Float) : Float × Script Float).1 = x := rfl

theorem drawsFromUnit_belowOne : DrawsFromUnit (⟨#[belowOne], 0⟩ : Script Float) := by
  rw [DrawsFromUnit, Script.draw_fst]
  decide

namespace Alternatives

variable {ρ : Type} [RandomSource ρ Float]

/-- A scan over the alternatives ends with the one that is chosen: the first with which the running
sum exceeds the point. It weighs something. -/
def Hits (a : Alternatives) (source : ρ) : Prop :=
  let point := between 0 a.totalWeight (draw source).1
  Selection.firstAbove? Rule.weight point 0 a.toList = some (a.choose source).1 ∧
    Selection.FirstAbove Rule.weight point a.toList (a.choose source).1 ∧
    Scalar.lt 0 (a.choose source).1.weight = true

variable {a : Alternatives} {source : ρ}

theorem not_hits_of_boundless (h : Boundless (between 0 a.totalWeight (draw source).1)) :
    ¬ a.Hits source := by
  rintro ⟨-, ⟨_, _, -, -, habove⟩, -⟩
  rw [h.lt_eq_false] at habove
  cases habove

theorem isFinite_totalWeight (a : Alternatives) :
    a.totalWeight.isFinite = (Selection.sumFrom Rule.weight 0 a.toList).isFinite ∧
      value a.totalWeight = value (Selection.sumFrom Rule.weight 0 a.toList) :=
  (Selection.alike_total Rule.weight a.toList).isFinite_value

section Accepted

variable (hw : ∀ r ∈ a.toList, r.weight.isFinite = true ∧ 0 ≤ value r.weight)

include hw

theorem atLeastZero_totalWeight : AtLeastZero a.totalWeight := by
  have hstart : AtLeastZero (-0) := by
    obtain ⟨hf, hv⟩ := neg_of_isFinite isFinite_zero
    exact Or.inl ⟨hf, by rw [hv, value_zero, neg_zero]⟩
  change AtLeastZero (Selection.sumFrom Rule.weight (-0) a.toList)
  exact Selection.atLeastZero_sumFrom hw hstart

variable (hpos : ∃ r ∈ a.toList, 0 < value r.weight)

include hpos

theorem value_totalWeight_pos (h : a.totalWeight.isFinite = true) : 0 < value a.totalWeight := by
  obtain ⟨r, hr, hrpos⟩ := hpos
  obtain ⟨hfin, hval⟩ := a.isFinite_totalWeight
  rw [hval]
  exact hrpos.trans_le
    (Selection.weight_le_sumFrom hw atLeastZero_zero (hfin.symm.trans h) hr)

theorem le_totalWeight_zero : Scalar.le a.totalWeight 0 = false := by
  rcases atLeastZero_totalWeight hw with ⟨hf, -⟩ | hu
  · rw [← Bool.not_eq_true, le_iff hf isFinite_zero, value_zero, not_le]
    exact value_totalWeight_pos hw hpos hf
  · rw [← Bool.not_eq_true]
    intro hle
    rw [le_iff_compare, hu] at hle
    cases hle

theorem hits_iff_lt {point : Float} (hpoint : between 0 a.totalWeight (draw source).1 = point)
    (ht : a.totalWeight.isFinite = true) (hp : point.isFinite = true) (hp0 : 0 ≤ value point) :
    a.Hits source ↔ value point < value a.totalWeight := by
  have hchoose := choose_of_not_le (le_totalWeight_zero hw hpos) source
  obtain ⟨hfs, hvs⟩ := a.isFinite_totalWeight
  have hs := hfs.symm.trans ht
  have hnone := Selection.firstAbove?_eq_none_iff_le hw hs hp hp0
  rw [← hvs, ← not_lt] at hnone
  rw [Hits, hpoint]
  rw [hpoint] at hchoose
  constructor
  · rintro ⟨hscan, -, -⟩
    refine not_not.mp fun h => ?_
    rw [hnone.mpr h] at hscan
    cases hscan
  · intro hlt
    obtain ⟨r, hr⟩ := Option.ne_none_iff_exists'.mp fun h => hnone.mp h hlt
    have hfst : (a.choose source).1 = r := by
      rw [hchoose, hr]
      rfl
    have hfirst := (Selection.firstAbove_iff (lt_eq_false_of_nonneg hp hp0)).mpr hr
    have hrpos := Selection.weight_pos_of_firstAbove hw hs hp hfirst
    have hrw := hw r (Selection.mem_of_firstAbove? hr)
    rw [hfst]
    exact ⟨hr, hfirst, (lt_zero_iff_of_isFinite hrw.1).mpr hrpos⟩

/-- A scan ends with an alternative iff the total is finite and scaling it makes it smaller. -/
theorem hits_iff {u : Float} (hdraw : (draw source : Float × ρ).1 = u) (hu : u.isFinite = true)
    (hu0 : 0 ≤ value u) (hu1 : value u ≤ 1) :
    a.Hits source ↔ a.totalWeight.isFinite = true ∧
      value (u * a.totalWeight) < value a.totalWeight := by
  have htotal := atLeastZero_totalWeight hw
  have hpoint : between 0 a.totalWeight (draw source).1 = u * a.totalWeight + 0 := by
    rw [hdraw, between, htotal.mul_sub_zero]
  by_cases ht : a.totalWeight.isFinite = true
  · have htpos := value_totalWeight_pos hw hpos ht
    have hprod := isFinite_mul_of_le_one hu ht hu0 htpos hu1
    obtain ⟨hp, hvp⟩ := add_zero_of_isFinite hprod
    have hprod0 := (isRounding_mul hu ht).le_value hprod Representable.zero
      (mul_nonneg hu0 htpos.le)
    rw [hits_iff_lt hw hpos hpoint ht hp (hvp.symm ▸ hprod0), hvp]
    exact (and_iff_right ht).symm
  · have hinf := htotal.unpack_of_not_isFinite (Bool.not_eq_true _ ▸ ht)
    have hbound : Boundless (between 0 a.totalWeight (draw source).1) :=
      hpoint ▸ (boundless_mul hu hu0 hinf).add_zero
    exact iff_of_false (not_hits_of_boundless hbound) fun h => ht h.1

theorem forall_hits_iff :
    (∀ {ρ : Type} [RandomSource ρ Float] (source : ρ), DrawsFromUnit source → a.Hits source) ↔
      a.totalWeight.isFinite = true ∧ (2 : ℝ) ^ (-1022 : ℤ) < value a.totalWeight := by
  constructor
  · intro h
    -- The greatest of all draws decides.
    have hle : value belowOne ≤ 1 := by
      rw [value_belowOne]
      norm_num
    obtain ⟨ht, hlt⟩ := (hits_iff hw hpos (Script.draw_fst belowOne) isFinite_belowOne
      value_belowOne_nonneg hle).mp (h _ drawsFromUnit_belowOne)
    exact ⟨ht, (value_belowOne_mul_lt_iff ht (value_totalWeight_pos hw hpos ht)).mp hlt⟩
  · rintro ⟨ht, hnormal⟩ ρ _ source hdraw
    obtain ⟨hu, hu0, hu1⟩ := hdraw.value_mem
    exact (hits_iff hw hpos rfl hu hu0 hu1.le).mpr
      ⟨ht, value_mul_lt hu ht hu0 (value_totalWeight_pos hw hpos ht) hu1 hnormal⟩

theorem forall_generator_hits_iff :
    (∀ g : Xorshift, g.state ≠ 0 → a.Hits g) ↔
      a.totalWeight.isFinite = true ∧ (2 : ℝ) ^ (-1023 : ℤ) < value a.totalWeight := by
  have hiff (g : Xorshift) : a.Hits g ↔ a.totalWeight.isFinite = true ∧
      value (Xorshift.unit (Xorshift.step g.state) * a.totalWeight) < value a.totalWeight := by
    obtain ⟨hu, hu0, hu1⟩ := Xorshift.unit_mem_of_rounded (Xorshift.step g.state)
    exact hits_iff hw hpos (congrArg Prod.fst (Xorshift.draw_eq g)) hu hu0
      (hu1.trans (by norm_num))
  constructor
  · intro h
    obtain ⟨ht, hlt⟩ := (hiff ⟨253081614⟩).mp (h _ (by decide))
    rw [Xorshift.step_eq_topState] at hlt
    exact ⟨ht, (Xorshift.value_unit_topState_mul_lt_iff ht
      (value_totalWeight_pos hw hpos ht)).mp hlt⟩
  · rintro ⟨ht, hlarge⟩ g -
    obtain ⟨hu, hu0, hu1⟩ := Xorshift.unit_mem_of_rounded (Xorshift.step g.state)
    exact (hiff g).mpr
      ⟨ht, value_mul_lt_of_le hu ht hu0 (value_totalWeight_pos hw hpos ht) hu1 hlarge⟩

end Accepted

end Alternatives

namespace Grammar

/-- The scan for a symbol whose rules weigh something ends with a rule that weighs something, for
all draws below one, iff the total of the weights is finite and above the least normal number; for
all generators, iff it is finite and above half of that number. -/
theorem scan_hits_iff (g : Grammar) (c : Char) (a : Alternatives)
    (ha : g.index.candidates? c = some a) (hpos : ∃ r ∈ a.toList, Scalar.lt 0 r.weight = true) :
    ((∀ {ρ : Type} [RandomSource ρ Float] (source : ρ), DrawsFromUnit source → a.Hits source) ↔
      a.totalWeight.isFinite = true ∧ (2 : ℝ) ^ (-1022 : ℤ) < value a.totalWeight) ∧
    ((∀ x : Xorshift, x.state ≠ 0 → a.Hits x) ↔
      a.totalWeight.isFinite = true ∧ (2 : ℝ) ^ (-1023 : ℤ) < value a.totalWeight) := by
  have hw : ∀ r ∈ a.toList, r.weight.isFinite = true ∧ 0 ≤ value r.weight := fun r hr =>
    Rule.weighs_iff.mp (g.weighs r ((mem_candidates_iff ha).mp hr).1)
  have hpos' : ∃ r ∈ a.toList, 0 < value r.weight := by
    obtain ⟨r, hr, hlt⟩ := hpos
    exact ⟨r, hr, (lt_zero_iff_of_isFinite (hw r hr).1).mp hlt⟩
  exact ⟨Alternatives.forall_hits_iff hw hpos', Alternatives.forall_generator_hits_iff hw hpos'⟩

theorem scan_hits_iff_meadow :
    ∃ a, meadow.index.candidates? 'F' = some a ∧
      (∃ r ∈ a.toList, Scalar.lt 0 r.weight = true) ∧ ∀ x : Xorshift, x.state ≠ 0 → a.Hits x := by
  let a : Alternatives := ⟨meadowRules[0], [meadowRules[1]]⟩
  have ha : meadow.index.candidates? 'F' = some a := rfl
  have hpos : ∃ r ∈ a.toList, Scalar.lt 0 r.weight = true :=
    ⟨_, List.mem_cons_self, by decide⟩
  have hparts : parts? a.totalWeight = some ⟨false, 2 ^ 52, -50⟩ := by decide
  have hlarge : (2 : ℝ) ^ (-1023 : ℤ) < value a.totalWeight := by
    calc (2 : ℝ) ^ (-1023 : ℤ) < 2 ^ (0 : ℤ) := zpow_lt_zpow_right₀ one_lt_two (by norm_num)
      _ ≤ value a.totalWeight := by
        rw [value_of_parts hparts]
        norm_num [Parts.value, Parts.factor, Parts.magnitude]
  exact ⟨a, ha, hpos, (scan_hits_iff meadow 'F' a ha hpos).2.mpr
    ⟨isFinite_iff.mpr ⟨_, hparts⟩, hlarge⟩⟩

def faint : Grammar where
  start := meadow.start
  rules := [⟨'F', ['X'], 0⟩, ⟨'F', ['F', 'F'], 5e-324⟩]
  start_ne_nil := meadow.start_ne_nil
  rules_ne_nil := by decide
  weighs := by decide +kernel

/-- The generator of a seed draws up to the total of such weights, and the rule that weighs nothing
stands in. -/
theorem faint_scan_misses :
    ∃ a x, faint.index.candidates? 'F' = some a ∧
      (∃ r ∈ a.toList, Scalar.lt 0 r.weight = true) ∧ Xorshift.ofSeed "tree" = .ok x ∧
      DrawsFromUnit x ∧ ¬ a.Hits x ∧ (a.choose x).1.output = ['X'] ∧
      Scalar.lt 0 (a.choose x).1.weight = false := by
  refine ⟨⟨⟨'F', ['X'], 0⟩, [⟨'F', ['F', 'F'], 5e-324⟩]⟩, ⟨Xorshift.hash "tree"⟩, rfl,
    ⟨_, List.mem_cons_of_mem _ List.mem_cons_self, by decide +kernel⟩, by decide +kernel, ?_, ?_,
    by decide +kernel, by decide +kernel⟩
  · exact ⟨by decide +kernel, by decide +kernel⟩
  · rintro ⟨-, -, hpos⟩
    exact absurd hpos (by decide +kernel)

end Grammar

end Arbor
