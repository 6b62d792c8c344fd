import StreamParser.Parser.Pattern
import StreamParser.Parser.Text

/-!
# Grammars: parsers as data

A grammar is a parser written down: leaves, combinators and references to rules. Its `meaning` is
a parser, given one for each rule; `unfold` supplies these by unfolding the rules to a bounded
depth, and halts as unfinished where the bound is met. A grammar may hold parsers of the caller's
own only if it has a licence for them: with no licence (`Empty`) it is built from the library
alone.
-/

namespace StreamParser

/-- Grammars over state `σ` and rules `ρ`, where rule `r` has values of type `τ r`. -/
inductive Grammar (κ : Type) {ρ : Type} (τ : ρ → Type) (σ : Type) : Type → Type 1 where
  | char (expected : Char) : Grammar κ τ σ Char
  | notChar (unwanted : Char) : Grammar κ τ σ Char
  | satisfy (label : String) (p : Char → Bool) : Grammar κ τ σ Char
  | endOfStream : Grammar κ τ σ Unit
  | noChoice {α : Type} : Grammar κ τ σ α
  | or {α : Type} (a b : Grammar κ τ σ α) : Grammar κ τ σ α
  | pair {α β : Type} (a : Grammar κ τ σ α) (b : Grammar κ τ σ β) : Grammar κ τ σ (α × β)
  | andThen {α β : Type} (a : Grammar κ τ σ α) (b : Grammar κ τ σ β) : Grammar κ τ σ (α × β)
  | map {α β : Type} (f : α → β) (a : Grammar κ τ σ α) : Grammar κ τ σ β
  | just {α : Type} (v : α) : Grammar κ τ σ α
  | many {α : Type} (a : Grammar κ τ σ α) : Grammar κ τ σ (List α)
  | many1 {α : Type} (a : Grammar κ τ σ α) : Grammar κ τ σ (List α)
  | optional {α : Type} (a : Grammar κ τ σ α) : Grammar κ τ σ (Option α)
  | nested {α : Type} (a : Grammar κ τ σ α) : Grammar κ τ σ α
  | ref (r : ρ) : Grammar κ τ σ (τ r)
  | state : Grammar κ τ σ σ
  | update (f : σ → σ) : Grammar κ τ σ Unit
  | skipSpaces : Grammar κ τ σ Unit
  | charsUntil (delimiter : Char) : Grammar κ τ σ String
  | pattern (p : Pattern) : Grammar κ τ σ PatternMatch
  | foreign {α β : Type} (licence : κ) (f : Parser σ α → Parser σ β) (a : Grammar κ τ σ α) :
      Grammar κ τ σ β

namespace Grammar

variable {κ ρ : Type} {τ : ρ → Type} {σ α β γ : Type}

/-- What a grammar parses, given parsers for the rules it refers to. -/
def meaning (env : (r : ρ) → Parser σ (τ r)) : {α : Type} → Grammar κ τ σ α → Parser σ α
  | _, char c => Parser.char c
  | _, notChar c => Parser.notChar c
  | _, satisfy label p => Parser.satisfy label p
  | _, endOfStream => Parser.endOfStream
  | _, noChoice => Parser.fail .noAlternative
  | _, or a b => Parser.or (a.meaning env) (b.meaning env)
  | _, pair a b => Parser.pair (a.meaning env) (b.meaning env)
  | _, andThen a b => Parser.andThen (a.meaning env) (b.meaning env)
  | _, map f a => Parser.map f (a.meaning env)
  | _, just v => Parser.just v
  | _, many a => Parser.many (a.meaning env)
  | _, many1 a => Parser.many1 (a.meaning env)
  | _, optional a => Parser.optional (a.meaning env)
  | _, nested a => Parser.nested (a.meaning env)
  | _, ref r => fun c => env r c
  | _, state => Parser.state
  | _, update f => Parser.update f
  | _, skipSpaces => Parser.skipSpaces
  | _, charsUntil d => Parser.charsUntil d
  | _, pattern p => Parser.pattern p
  | _, foreign _ f a => f (a.meaning env)

/-- The rules, unfolded `depth` times at most. -/
def unfold (rules : (r : ρ) → Grammar κ τ σ (τ r)) : (depth : Nat) → (r : ρ) → Parser σ (τ r)
  | 0, _, _ => .halt .unfinished
  | depth + 1, r, c => (rules r).meaning (unfold rules depth) c

def run (rules : (r : ρ) → Grammar κ τ σ (τ r)) (depth : Nat) (g : Grammar κ τ σ α) : Parser σ α :=
  g.meaning (unfold rules depth)

/-! ### Derived forms -/

def choice : List (Grammar κ τ σ α) → Grammar κ τ σ α
  | [] => noChoice
  | a :: as => as.foldl or a

def anyCharOf (chars : List Char) : Grammar κ τ σ Char := choice (chars.map char)

def anyCharIn (first last : Char) : Grammar κ τ σ Char := anyCharOf (Parser.charsFrom first last)

def terminated (a : Grammar κ τ σ α) (b : Grammar κ τ σ β) : Grammar κ τ σ α :=
  map Prod.fst (pair a b)

def preceded (a : Grammar κ τ σ α) (b : Grammar κ τ σ β) : Grammar κ τ σ β :=
  map Prod.snd (pair a b)

def apply (a : Grammar κ τ σ (α → β)) (b : Grammar κ τ σ α) : Grammar κ τ σ β :=
  map (fun fa => fa.1 fa.2) (pair a b)

def lift₂ (f : α → β → γ) (a : Grammar κ τ σ α) (b : Grammar κ τ σ β) : Grammar κ τ σ γ :=
  map (fun ab => f ab.1 ab.2) (pair a b)

def sequence : List (Grammar κ τ σ α) → Grammar κ τ σ (List α)
  | [] => just []
  | a :: as => map (fun vs => vs.1 :: vs.2) (andThen a (sequence as))

def between (left : Grammar κ τ σ α) (middle : Grammar κ τ σ β) (right : Grammar κ τ σ γ) :
    Grammar κ τ σ β :=
  map Prod.snd (andThen left (terminated middle right))

def literal (text : String) : Grammar κ τ σ String :=
  map String.ofList (sequence (text.toList.map char))

def space : Grammar κ τ σ Char := char ' '

def literalThenSpace (text : String) : Grammar κ τ σ String := terminated (literal text) space

/-! ### Their meanings -/

variable (env : (r : ρ) → Parser σ (τ r))

theorem meaning_foldl_or (as : List (Grammar κ τ σ α)) (a : Grammar κ τ σ α) :
    (as.foldl or a).meaning env = (as.map (meaning env)).foldl Parser.or (a.meaning env) := by
  induction as generalizing a with
  | nil => rfl
  | cons b as ih => exact ih (or a b)

@[simp] theorem meaning_choice (as : List (Grammar κ τ σ α)) :
    (choice as).meaning env = Parser.choice (as.map (meaning env)) := by
  cases as with
  | nil => rfl
  | cons a as => exact meaning_foldl_or env as a

@[simp] theorem meaning_sequence (as : List (Grammar κ τ σ α)) :
    (sequence as).meaning env = Parser.sequence (as.map (meaning env)) := by
  induction as with
  | nil => rfl
  | cons a as ih => simp only [sequence, meaning, ih, List.map_cons, Parser.sequence]

@[simp] theorem meaning_anyCharOf (chars : List Char) :
    (anyCharOf chars : Grammar κ τ σ Char).meaning env = Parser.anyCharOf chars := by
  simp only [anyCharOf, meaning_choice, List.map_map, Parser.anyCharOf]
  rfl

@[simp] theorem meaning_literal (text : String) :
    (literal text : Grammar κ τ σ String).meaning env = Parser.literal text := by
  simp only [literal, meaning, meaning_sequence, List.map_map, Parser.literal]
  rfl

@[simp] theorem meaning_between (a : Grammar κ τ σ α) (b : Grammar κ τ σ β) (d : Grammar κ τ σ γ) :
    (between a b d).meaning env =
      Parser.between (a.meaning env) (b.meaning env) (d.meaning env) := rfl

@[simp] theorem meaning_literalThenSpace (text : String) :
    (literalThenSpace text : Grammar κ τ σ String).meaning env = Parser.literalThenSpace text := by
  simp only [literalThenSpace, terminated, meaning, meaning_literal, Parser.literalThenSpace,
    Parser.terminated]
  rfl

end Grammar

end StreamParser
