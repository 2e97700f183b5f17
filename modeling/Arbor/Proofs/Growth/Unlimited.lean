import Arbor.Grammar.Catalog
import Arbor.Grammar.Growth
import Arbor.Random.Xorshift
import Mathlib.Data.Nat.Find
import Mathlib.Order.Bounds.Basic

/-! # Limited and unlimited growth

Without limits every pass appends the rewrite of the whole word. A pass that may
write a number of symbols only is given up exactly when its whole rewrite is longer,
so the limited growth is the unlimited one up to the first word that is too long.
-/

namespace Arbor.RuleIndex

variable {ρ : Type} [RandomSource ρ Float]

/-- The rewrite of a whole word: symbols without rules are copied, all others give
way to the output of the rule that is chosen. -/
def rewriteAll (index : RuleIndex) : Word → ρ → Word × ρ
  | [], source => ([], source)
  | c :: rest, source =>
    match index.candidates? c with
    | none =>
      let (tail, source) := rewriteAll index rest source
      (c :: tail, source)
    | some a =>
      let (rule, source) := a.choose source
      let (tail, source) := rewriteAll index rest source
      (rule.output ++ tail, source)

/-- The word after a number of passes without limits, and the source that is left. -/
def generation (index : RuleIndex) (start : Word) (source : ρ) : Nat → Word × ρ
  | 0 => (start, source)
  | k + 1 =>
    let (word, source) := generation index start source k
    let (tail, source) := index.rewriteAll word source
    (word ++ tail, source)

/-- The passes that a limited growth starts: the number of each, with the word, the
count of its symbols and the source that it begins with. -/
inductive StartsPass (index : RuleIndex) (limits : Limits) (start : Word) (n : Nat) (source : ρ) :
    (iteration : Nat) → Word → (count : Nat) → ρ → Prop where
  | first : n ≤ limits.maxIterations → start.length ≤ limits.maxSymbols → 0 < n →
      StartsPass index limits start n source 1 start start.length source
  | next {i : Nat} {word output : Word} {count added : Nat} {s s' : ρ} :
      StartsPass index limits start n source i word count s →
      index.rewriteWithin (limits.maxSymbols - count) word [] 0 s = (some (output, added), s') →
      i < n → StartsPass index limits start n source (i + 1) (word ++ output) (count + added) s'

variable {index : RuleIndex} {limits : Limits} {start : Word} {n : Nat} {source : ρ}

theorem rewriteAll_cons (c : Char) (rest : Word) (source : ρ) :
    index.rewriteAll (c :: rest) source =
      ((index.rewrite c source).1 ++ (index.rewriteAll rest (index.rewrite c source).2).1,
        (index.rewriteAll rest (index.rewrite c source).2).2) := by
  simp only [rewriteAll, rewrite]
  cases index.candidates? c <;> rfl

theorem generation_succ (start : Word) (source : ρ) (k : Nat) :
    index.generation start source (k + 1) =
      ((index.generation start source k).1 ++
          (index.rewriteAll (index.generation start source k).1
            (index.generation start source k).2).1,
        (index.rewriteAll (index.generation start source k).1
          (index.generation start source k).2).2) := rfl

theorem generation_isPrefix (index : RuleIndex) (start : Word) (source : ρ) {j k : Nat}
    (h : j ≤ k) : (index.generation start source j).1 <+: (index.generation start source k).1 := by
  induction h with
  | refl => exact List.prefix_rfl
  | step _ ih =>
    rw [generation_succ]
    exact ih.trans (List.prefix_append _ _)

theorem length_generation_mono (index : RuleIndex) (start : Word) (source : ρ) {j k : Nat}
    (h : j ≤ k) :
    (index.generation start source j).1.length ≤ (index.generation start source k).1.length :=
  (generation_isPrefix index start source h).length_le

/-! ## One pass -/

theorem rewriteWithin_of_le {budget added : Nat} (index : RuleIndex) (word written : Word)
    (source : ρ) (h : added + (index.rewriteAll word source).1.length ≤ budget) :
    index.rewriteWithin budget word written added source =
      (some (written.reverse ++ (index.rewriteAll word source).1,
          added + (index.rewriteAll word source).1.length),
        (index.rewriteAll word source).2) := by
  induction word generalizing written added source with
  | nil => simp [rewriteWithin, rewriteAll]
  | cons c rest ih =>
    rw [rewriteAll_cons, List.length_append] at h
    have hc : ¬ budget < added + (index.rewrite c source).1.length := by omega
    simp only [rewriteWithin, hc, if_false]
    rw [ih _ _ (by omega), rewriteAll_cons]
    simp [List.reverseAux_eq, Nat.add_assoc]

/-- A pass whose rewrite is longer than the budget is given up, with the first symbol
by which it has written too much. -/
theorem rewriteWithin_of_lt {budget added : Nat} (index : RuleIndex) (word written : Word)
    (source : ρ) (hle : added ≤ budget)
    (h : budget < added + (index.rewriteAll word source).1.length) :
    ∃ before c after, word = before ++ c :: after ∧
      added + (index.rewriteAll before source).1.length ≤ budget ∧
      budget < added + (index.rewriteAll (before ++ [c]) source).1.length ∧
      index.rewriteWithin budget word written added source =
        (none, (index.rewriteAll (before ++ [c]) source).2) := by
  induction word generalizing written added source with
  | nil => exact absurd h (by simpa [rewriteAll] using hle)
  | cons c rest ih =>
    rw [rewriteAll_cons, List.length_append] at h
    by_cases hc : budget < added + (index.rewrite c source).1.length
    · refine ⟨[], c, rest, rfl, by simpa [rewriteAll] using hle, ?_, ?_⟩
      · rw [List.nil_append, rewriteAll_cons, List.length_append]
        omega
      · simp only [rewriteWithin, hc, if_true]
        rw [List.nil_append, rewriteAll_cons]
        rfl
    · have hle' : added + (index.rewrite c source).1.length ≤ budget := by omega
      obtain ⟨before, d, after, rfl, hb, ha, hr⟩ :=
        ih _ (index.rewrite c source).2 hle' (by omega)
      refine ⟨c :: before, d, after, rfl, ?_, ?_, ?_⟩
      · rw [rewriteAll_cons, List.length_append]
        omega
      · rw [List.cons_append, rewriteAll_cons, List.length_append]
        omega
      · simp only [rewriteWithin, hc, if_false]
        rw [hr, List.cons_append, rewriteAll_cons]

theorem rewriteWithin_eq_some_iff {budget added : Nat} {word output : Word} {s' : ρ} :
    index.rewriteWithin budget word [] 0 source = (some (output, added), s') ↔
      index.rewriteAll word source = (output, s') ∧ added = output.length ∧
        output.length ≤ budget := by
  rcases Nat.lt_or_ge budget (0 + (index.rewriteAll word source).1.length) with h | h
  · obtain ⟨_, _, _, _, _, _, hr⟩ := rewriteWithin_of_lt index word [] source (Nat.zero_le _) h
    rw [hr]
    constructor
    · rintro ⟨⟩
    · rintro ⟨he, rfl, hle⟩
      simp only [he] at h
      omega
  · rw [rewriteWithin_of_le index word [] source h, List.reverse_nil, List.nil_append, Nat.zero_add]
    constructor
    · rintro ⟨⟩
      exact ⟨rfl, rfl, by omega⟩
    · rintro ⟨he, rfl, _⟩
      rw [he]

theorem passes_succ_of_le {left i : Nat} {word : Word} {sizes : List Nat}
    (h : (word ++ (index.rewriteAll word source).1).length ≤ limits.maxSymbols) :
    index.passes limits (left + 1) i word word.length sizes source =
      index.passes limits left (i + 1) (word ++ (index.rewriteAll word source).1)
        (word ++ (index.rewriteAll word source).1).length
        ((word ++ (index.rewriteAll word source).1).length :: sizes)
        (index.rewriteAll word source).2 := by
  rw [List.length_append] at h ⊢
  have hfit : 0 + (index.rewriteAll word source).1.length ≤ limits.maxSymbols - word.length := by
    omega
  have hr := rewriteWithin_of_le index word [] source hfit
  simp [passes, hr]

theorem passes_succ_of_lt {left i : Nat} {word : Word} {sizes : List Nat}
    (hle : word.length ≤ limits.maxSymbols)
    (h : limits.maxSymbols < (word ++ (index.rewriteAll word source).1).length) :
    (index.passes limits (left + 1) i word word.length sizes source).outcome =
      .error (.expansionTooLarge i limits.maxSymbols) := by
  rw [List.length_append] at h
  have hover : limits.maxSymbols - word.length <
      0 + (index.rewriteAll word source).1.length := by omega
  obtain ⟨_, _, _, _, _, _, hr⟩ := rewriteWithin_of_lt index word [] source (Nat.zero_le _) hover
  simp [passes, hr]

/-! ## All passes -/

def growFrom (index : RuleIndex) (limits : Limits) (start : Word) (source : ρ) (k left : Nat)
    (sizes : List Nat) : Growth ρ :=
  let (word, source) := index.generation start source k
  index.passes limits left (k + 1) word word.length sizes source

theorem growFrom_succ_of_le {k left : Nat} {sizes : List Nat}
    (h : (index.generation start source (k + 1)).1.length ≤ limits.maxSymbols) :
    index.growFrom limits start source k (left + 1) sizes =
      index.growFrom limits start source (k + 1) left
        ((index.generation start source (k + 1)).1.length :: sizes) :=
  passes_succ_of_le h

theorem growFrom_of_le {k left : Nat} {sizes : List Nat}
    (h : (index.generation start source (k + left)).1.length ≤ limits.maxSymbols) :
    (index.growFrom limits start source k left sizes).outcome =
        .ok (index.generation start source (k + left)).1 ∧
      (index.growFrom limits start source k left sizes).source =
        (index.generation start source (k + left)).2 := by
  induction left generalizing k sizes with
  | zero => exact ⟨rfl, rfl⟩
  | succ left ih =>
    rw [growFrom_succ_of_le ((length_generation_mono index start source (by omega)).trans h)]
    rw [show k + (left + 1) = k + 1 + left by omega] at h ⊢
    exact ih h

theorem growFrom_of_isLeast {k left m : Nat} {sizes : List Nat} (hkm : k < m)
    (hm : IsLeast {j | j ≤ k + left ∧
      limits.maxSymbols < (index.generation start source j).1.length} m) :
    (index.growFrom limits start source k left sizes).outcome =
      .error (.expansionTooLarge m limits.maxSymbols) := by
  have hle : ∀ j < m, (index.generation start source j).1.length ≤ limits.maxSymbols := by
    intro j hj
    by_contra hlt
    have hmj : m ≤ j := hm.2 ⟨hj.le.trans hm.1.1, Nat.lt_of_not_le hlt⟩
    omega
  induction left generalizing k sizes with
  | zero => exact absurd hm.1.1 (by omega)
  | succ left ih =>
    rcases Nat.lt_or_eq_of_le (Nat.succ_le_of_lt hkm) with hlt | rfl
    · rw [growFrom_succ_of_le (hle _ hlt)]
      rw [show k + (left + 1) = k + 1 + left by omega] at hm
      exact ih hlt hm
    · exact passes_succ_of_lt (hle k hkm) hm.1.2

theorem grow_of_lt_iterations (h : limits.maxIterations < n) :
    index.grow limits start n source =
      ⟨.error (.config (.tooManyIterations n limits.maxIterations)), source, []⟩ := by
  simp only [grow, Limits.checkIterations, h, if_true]

theorem grow_of_lt_symbols (hn : n ≤ limits.maxIterations)
    (h : limits.maxSymbols < start.length) :
    index.grow limits start n source =
      ⟨.error (.expansionTooLarge 0 limits.maxSymbols), source, []⟩ := by
  simp only [grow, Limits.checkIterations, hn.not_gt, h, if_true, if_false]

theorem grow_eq_growFrom (hn : n ≤ limits.maxIterations)
    (h : start.length ≤ limits.maxSymbols) :
    index.grow limits start n source = index.growFrom limits start source 0 n [] := by
  simp only [grow, Limits.checkIterations, hn.not_gt, h.not_gt, if_false]
  rfl

theorem grow_of_le (hn : n ≤ limits.maxIterations)
    (h : (index.generation start source n).1.length ≤ limits.maxSymbols) :
    (index.grow limits start n source).outcome = .ok (index.generation start source n).1 ∧
      (index.grow limits start n source).source = (index.generation start source n).2 := by
  have hs : start.length ≤ limits.maxSymbols :=
    (length_generation_mono index start source (Nat.zero_le n)).trans h
  rw [grow_eq_growFrom hn hs]
  rw [← Nat.zero_add n] at h
  simpa only [Nat.zero_add] using growFrom_of_le h

theorem grow_of_isLeast {m : Nat} (hn : n ≤ limits.maxIterations)
    (hm : IsLeast {j | j ≤ n ∧
      limits.maxSymbols < (index.generation start source j).1.length} m) :
    (index.grow limits start n source).outcome =
      .error (.expansionTooLarge m limits.maxSymbols) := by
  rcases Nat.eq_zero_or_pos m with rfl | hpos
  · have hs : limits.maxSymbols < start.length := hm.1.2
    rw [grow_of_lt_symbols hn hs]
  · have hs : start.length ≤ limits.maxSymbols := by
      by_contra hlt
      have hm0 : m ≤ 0 := hm.2 ⟨Nat.zero_le n, Nat.lt_of_not_le hlt⟩
      omega
    rw [grow_eq_growFrom hn hs]
    rw [← Nat.zero_add n] at hm
    exact growFrom_of_isLeast hpos hm

/-- A started pass begins with the word that the unlimited growth has there, its
symbols are counted and within the limits, and the growth goes on with it. -/
theorem StartsPass.sound {i count : Nat} {word : Word} {s : ρ}
    (h : StartsPass index limits start n source i word count s) :
    n ≤ limits.maxIterations ∧ 1 ≤ i ∧ i ≤ n ∧ index.generation start source (i - 1) = (word, s) ∧
      count = word.length ∧ count ≤ limits.maxSymbols ∧
      ∃ sizes, index.grow limits start n source =
        index.passes limits (n + 1 - i) i word count sizes s := by
  induction h with
  | first hn hs hpos =>
    exact ⟨hn, le_rfl, hpos, rfl, rfl, hs, [], by rw [grow_eq_growFrom hn hs]; rfl⟩
  | @next i word output count added s s' _ hr hi ih =>
    obtain ⟨hn, h1, _, hg, rfl, hc, sizes, he⟩ := ih
    obtain ⟨ha, rfl, hle⟩ := rewriteWithin_eq_some_iff.mp hr
    obtain ⟨k, rfl⟩ : ∃ k, i = k + 1 := ⟨i - 1, by omega⟩
    have hfit : (word ++ (index.rewriteAll word s).1).length ≤ limits.maxSymbols := by
      simp only [ha, List.length_append]
      omega
    refine ⟨hn, by omega, hi, ?_, (List.length_append ..).symm, by omega,
      (word ++ output).length :: sizes, ?_⟩
    · rw [Nat.add_sub_cancel] at hg ⊢
      rw [generation_succ, hg, ha]
    · rw [he, show n + 1 - (k + 1) = n + 1 - (k + 1 + 1) + 1 by omega, passes_succ_of_le hfit, ha,
        List.length_append]

theorem startsPass_generation {k : Nat} (hn : n ≤ limits.maxIterations) (hk : k < n)
    (h : (index.generation start source k).1.length ≤ limits.maxSymbols) :
    StartsPass index limits start n source (k + 1) (index.generation start source k).1
      (index.generation start source k).1.length (index.generation start source k).2 := by
  induction k with
  | zero => exact .first hn h hk
  | succ k ih =>
    have hp := ih (by omega) ((length_generation_mono index start source (Nat.le_succ k)).trans h)
    rw [generation_succ, List.length_append] at h ⊢
    exact .next hp (rewriteWithin_eq_some_iff.mpr ⟨rfl, rfl, by omega⟩) hk

theorem startsPass_iff {i count : Nat} {word : Word} {s : ρ} :
    StartsPass index limits start n source i word count s ↔
      n ≤ limits.maxIterations ∧ 1 ≤ i ∧ i ≤ n ∧ index.generation start source (i - 1) = (word, s) ∧
        count = word.length ∧ count ≤ limits.maxSymbols := by
  constructor
  · intro h
    obtain ⟨hn, h1, hi, hg, hc, hle, _⟩ := h.sound
    exact ⟨hn, h1, hi, hg, hc, hle⟩
  · rintro ⟨hn, h1, hi, hg, rfl, hle⟩
    obtain ⟨k, rfl⟩ : ∃ k, i = k + 1 := ⟨i - 1, by omega⟩
    rw [Nat.add_sub_cancel] at hg
    have hle' : (index.generation start source k).1.length ≤ limits.maxSymbols := by
      rw [hg]
      exact hle
    have hp := startsPass_generation hn hi hle'
    rw [hg] at hp
    exact hp

theorem exists_isLeast_or_length_le (index : RuleIndex) (limits : Limits) (start : Word) (n : Nat)
    (source : ρ) :
    (∃ k, IsLeast {j | j ≤ n ∧
      limits.maxSymbols < (index.generation start source j).1.length} k) ∨
      (index.generation start source n).1.length ≤ limits.maxSymbols := by
  rcases Nat.lt_or_ge limits.maxSymbols (index.generation start source n).1.length with h | h
  · have he : ∃ j, j ≤ n ∧ limits.maxSymbols < (index.generation start source j).1.length :=
      ⟨n, le_rfl, h⟩
    exact Or.inl ⟨Nat.find he, Nat.find_spec he, fun _ hj => Nat.find_min' he hj⟩
  · exact Or.inr h

theorem isLeast_of_grow_eq_error {k : Nat} (hn : n ≤ limits.maxIterations)
    (h : (index.grow limits start n source).outcome =
      .error (.expansionTooLarge k limits.maxSymbols)) :
    IsLeast {j | j ≤ n ∧ limits.maxSymbols < (index.generation start source j).1.length} k := by
  rcases exists_isLeast_or_length_le index limits start n source with ⟨m, hm⟩ | hle
  · rw [grow_of_isLeast hn hm] at h
    obtain rfl : m = k := by simpa using h
    exact hm
  · rw [(grow_of_le hn hle).1] at h
    cases h

/-- A growth that asks for too many passes fails at once. Any other one fails with the
first word of the unlimited growth that is too long, if there is one, and otherwise ends
with its last word and its source. The passes up to that word are started, each with its
symbols counted and with a budget that is not negative. -/
theorem grow_eq_cut_generation (g : Grammar) (limits : Limits) (start : Word) (n : Nat)
    (source : ρ) :
    let growth := g.index.grow limits start n source
    let generation := g.index.generation start source
    (limits.maxIterations < n →
      growth.outcome = .error (.config (.tooManyIterations n limits.maxIterations)) ∧
        growth.source = source) ∧
    (n ≤ limits.maxIterations →
      (∀ k, growth.outcome = .error (.expansionTooLarge k limits.maxSymbols) ↔
        IsLeast {j | j ≤ n ∧ limits.maxSymbols < (generation j).1.length} k) ∧
      ((∀ j ≤ n, (generation j).1.length ≤ limits.maxSymbols) →
        growth.outcome = .ok (generation n).1 ∧ growth.source = (generation n).2)) ∧
    (∀ i word count s, StartsPass g.index limits start n source i word count s ↔
      n ≤ limits.maxIterations ∧ 1 ≤ i ∧ i ≤ n ∧ generation (i - 1) = (word, s) ∧
        count = word.length ∧ count ≤ limits.maxSymbols) ∧
    ∀ i word count s, StartsPass g.index limits start n source i word count s →
      ∃ left sizes, growth = g.index.passes limits (left + 1) i word count sizes s := by
  refine ⟨fun h => ?_, fun hn => ⟨fun k => ?_, fun h => grow_of_le hn (h n le_rfl)⟩,
    fun i word count s => startsPass_iff, fun i word count s h => ?_⟩
  · rw [grow_of_lt_iterations h]
    exact ⟨rfl, rfl⟩
  · exact ⟨isLeast_of_grow_eq_error hn, grow_of_isLeast hn⟩
  · obtain ⟨_, _, hi, _, _, _, sizes, he⟩ := h.sound
    refine ⟨n - i, sizes, ?_⟩
    rw [he, show n + 1 - i = n - i + 1 by omega]

theorem grow_eq_cut_generation_bush :
    IsLeast {j | j ≤ 3 ∧
      100 < (Grammar.bush.index.generation ['X'] (⟨1⟩ : Xorshift) j).1.length} 2 ∧
    (Grammar.bush.index.grow ⟨8, 100⟩ ['X'] 3 (⟨1⟩ : Xorshift)).outcome =
      .error (.expansionTooLarge 2 100) := by
  have hm : IsLeast {j | j ≤ 3 ∧
      100 < (Grammar.bush.index.generation ['X'] (⟨1⟩ : Xorshift) j).1.length} 2 := by
    refine ⟨⟨by decide, by decide +kernel⟩, fun j hj => ?_⟩
    by_contra hlt
    have h1 : (Grammar.bush.index.generation ['X'] (⟨1⟩ : Xorshift) 1).1.length ≤ 100 := by
      decide
    have hmono := length_generation_mono Grammar.bush.index ['X'] (⟨1⟩ : Xorshift)
      (show j ≤ 1 by omega)
    have := hj.2
    omega
  exact ⟨hm, (((grow_eq_cut_generation Grammar.bush ⟨8, 100⟩ ['X'] 3 (⟨1⟩ : Xorshift)).2.1
    (by decide)).1 2).mpr hm⟩

end Arbor.RuleIndex
