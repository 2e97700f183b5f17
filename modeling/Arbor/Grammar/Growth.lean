import Arbor.Grammar.Selection

/-! # Growth

A pass rewrites every symbol of a word, and its result is appended to the word:
each generation stays and the next one follows it. Passes and symbols are limited.
A pass is given up as soon as it has written more symbols than are left.
-/

namespace Arbor

structure Limits where
  maxIterations : Nat
  maxSymbols : Nat
  deriving DecidableEq, Repr

def Limits.standard : Limits := ⟨8, 4000000⟩

def Limits.checkIterations (l : Limits) (n : Nat) : Except ConfigError Unit :=
  if l.maxIterations < n then .error (.tooManyIterations n l.maxIterations) else .ok ()

/-- How a growth ended, the source that it left, and the number of symbols after
each of its finished passes. -/
structure Growth (ρ : Type) where
  outcome : Except GenerationError Word
  source : ρ
  sizes : List Nat

namespace RuleIndex

variable {ρ : Type} [RandomSource ρ Float]

@[specialize] def rewrite (index : RuleIndex) (c : Char) (source : ρ) : Word × ρ :=
  match index.candidates? c with
  | none => ([c], source)
  | some a =>
    let (rule, source) := a.choose source
    (rule.output, source)

/-- Rewrites symbols in order while no more than `budget` symbols are written.
The word written so far is kept backwards and its length beside it. -/
@[specialize] def rewriteWithin (index : RuleIndex) (budget : Nat) :
    Word → (written : Word) → (added : Nat) → ρ → Option (Word × Nat) × ρ
  | [], written, added, source => (some (written.reverse, added), source)
  | c :: rest, written, added, source =>
    let (output, source) := index.rewrite c source
    let added := added + output.length
    if budget < added then (none, source)
    else rewriteWithin index budget rest (output.reverseAux written) added source

@[specialize] def rewriteOnce (index : RuleIndex) (limits : Limits) (word : Word) (source : ρ) :
    Except GenerationError Word × ρ :=
  match index.rewriteWithin limits.maxSymbols word [] 0 source with
  | (some (output, _), source) => (.ok output, source)
  | (none, source) => (.error (.expansionTooLarge 1 limits.maxSymbols), source)

/-- Runs the passes that are left on a word of `count` symbols. -/
@[specialize] def passes (index : RuleIndex) (limits : Limits) :
    (left : Nat) → (iteration : Nat) → Word → (count : Nat) → (sizes : List Nat) → ρ → Growth ρ
  | 0, _, word, _, sizes, source => ⟨.ok word, source, sizes.reverse⟩
  | left + 1, iteration, word, count, sizes, source =>
    match index.rewriteWithin (limits.maxSymbols - count) word [] 0 source with
    | (none, source) =>
      ⟨.error (.expansionTooLarge iteration limits.maxSymbols), source, sizes.reverse⟩
    | (some (output, added), source) =>
      passes index limits left (iteration + 1) (word ++ output) (count + added)
        ((count + added) :: sizes) source

@[specialize] def grow (index : RuleIndex) (limits : Limits) (start : Word) (iterations : Nat)
    (source : ρ) : Growth ρ :=
  match limits.checkIterations iterations with
  | .error e => ⟨.error (.config e), source, []⟩
  | .ok () =>
    let count := start.length
    if limits.maxSymbols < count then
      ⟨.error (.expansionTooLarge 0 limits.maxSymbols), source, []⟩
    else index.passes limits iterations 1 start count [] source

end RuleIndex

end Arbor
