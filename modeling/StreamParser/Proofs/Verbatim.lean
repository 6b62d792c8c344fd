import StreamParser.Proofs.Evaluation

/-!
# No text is lost or invented

Where nothing drops or replaces a value, a value spells the text it was read from: put before what
remains, it gives back what there was to read. One lemma for each parser and combinator says so of
arbitrary parts; a grammar is then taken part by part.
-/

namespace StreamParser

class Spelled (α : Type) where
  spell : α → List Char

export Spelled (spell)

section Instances

variable {α β : Type} [Spelled α] [Spelled β]

instance : Spelled Char := ⟨fun x => [x]⟩

instance : Spelled String := ⟨String.toList⟩

instance : Spelled PatternMatch := ⟨fun m => m.text.toList⟩

instance : Spelled (α × β) := ⟨fun v => spell v.1 ++ spell v.2⟩

instance : Spelled (List α) := ⟨List.flatMap spell⟩

instance : Spelled (Option α) := ⟨fun v => v.elim [] spell⟩

end Instances

namespace Parser

variable {σ α β : Type}

/-- Every success spells, by `f`, what it consumed. -/
def Spells (p : Parser σ α) (f : α → List Char) : Prop :=
  ∀ ⦃c t v d⦄, p c = ⟨t, .ok (.success v d)⟩ → c.remaining = f v ++ d.remaining

namespace Spells

variable {p q : Parser σ α} {f : α → List Char}

/-! ### Leaves -/

theorem char (x : Char) : (char x : Parser σ Char).Spells spell := by
  intro c t v d h
  rcases hr : c.remaining? with _ | _ | ⟨y, rest⟩
  · rw [Parser.char, Context.reading_of_misplaced hr] at h
    cases h
  · rw [char_nil hr] at h
    cases h
  · by_cases hy : y = x
    · subst hy
      rw [char_self hr] at h
      cases h
      exact Context.remaining_eq_cons hr
    · rw [char_other hr hy] at h
      cases h

theorem notChar (x : Char) : (notChar x : Parser σ Char).Spells spell := by
  intro c t v d h
  rcases hr : c.remaining? with _ | _ | ⟨y, rest⟩
  · rw [Parser.notChar, Context.reading_of_misplaced hr] at h
    cases h
  · rw [notChar_nil hr] at h
    cases h
  · by_cases hy : y = x
    · subst hy
      rw [notChar_self hr] at h
      cases h
    · rw [notChar_other hr hy] at h
      cases h
      exact Context.remaining_eq_cons hr

theorem satisfy (label : String) (k : Char → Bool) :
    (satisfy label k : Parser σ Char).Spells spell := by
  intro c t v d h
  rcases hr : c.remaining? with _ | _ | ⟨y, rest⟩
  · rw [Parser.satisfy, Context.reading_of_misplaced hr] at h
    cases h
  · rw [satisfy_nil hr] at h
    cases h
  · cases hk : k y with
    | true =>
      rw [satisfy_of_true hr hk] at h
      cases h
      exact Context.remaining_eq_cons hr
    | false =>
      rw [satisfy_of_false hr hk] at h
      cases h

theorem fail (cause : Cause) : (fail cause : Parser σ α).Spells f := by
  intro c t v d h
  cases h

theorem charsUntil (x : Char) : (charsUntil x : Parser σ String).Spells spell := by
  intro c t v d h
  rcases hr : c.remaining? with _ | text
  · rw [charsUntil_of_misplaced hr] at h
    cases h
  · rw [charsUntil_eq hr] at h
    split at h
    · cases h
    · cases h
      rw [← without_append_dropWhile x text] at hr
      have hspell : spell (String.ofList (without x text)) = without x text := String.toList_ofList
      rw [hspell]
      exact Context.remaining_eq_append hr

theorem pattern (k : Pattern) : (pattern k : Parser σ PatternMatch).Spells spell := by
  intro c t v d h
  obtain ⟨taken, rest, hr, hm, rfl⟩ := pattern_eq_success h
  obtain ⟨taken', hsplit, -, htext⟩ := Pattern.match?_split hm
  obtain rfl := List.append_cancel_right hsplit
  have hspell : spell v = taken := by
    show v.text.toList = taken
    rw [htext, String.toList_ofList]
  rw [hspell]
  exact Context.remaining_eq_append hr

/-! ### Combinators -/

theorem or (hp : p.Spells f) (hq : q.Spells f) : (or p q).Spells f := by
  intro c t v d h
  rcases or_eq_ok.mp h with ⟨w, e, ha, ho⟩ | ⟨err, e, t₁, t₂, -, hb, -⟩
  · cases ho
    exact hp ha
  · exact hq hb

theorem both {r : Parser σ β} {g : β → List Char} (hp : p.Spells f) (hr : r.Spells g) {c d e : Context σ}
    {t u : List Event} {v : α} {w : β} (ha : p c = ⟨t, .ok (.success v d)⟩)
    (hb : r d = ⟨u, .ok (.success w e)⟩) : c.remaining = (f v ++ g w) ++ e.remaining := by
  rw [hp ha, hr hb, List.append_assoc]

theorem pair {r : Parser σ β} {g : β → List Char} (hp : p.Spells f) (hr : r.Spells g) :
    (pair p r).Spells fun v => f v.1 ++ g v.2 := by
  intro c t v d h
  rcases pair_eq_ok.mp h with ⟨err, e, -, ho⟩ |
    ⟨t₁, a, e, t₂, ha, -, ⟨err, e', -, ho⟩ | ⟨b, e', hb, ho⟩⟩
  · cases ho
  · cases ho
  · cases ho
    exact both hp hr ha hb

theorem andThen {r : Parser σ β} {g : β → List Char} (hp : p.Spells f) (hr : r.Spells g) :
    (andThen p r).Spells fun v => f v.1 ++ g v.2 := by
  intro c t v d h
  rcases andThen_eq_ok.mp h with ⟨err, e, -, ho⟩ | ⟨t₁, a, e, t₂, o, ha, hb, -, ho⟩
  · cases ho
  · cases o with
    | failure => cases ho
    | success b e' =>
      cases ho
      exact both hp hr ha hb

theorem map {g : β → List Char} {k : α → β} (hp : p.Spells f) (hk : ∀ v, g (k v) = f v) :
    (map k p).Spells g := by
  intro c t v d h
  obtain ⟨o, ha, ho⟩ := map_eq_ok.mp h
  cases o with
  | failure => cases ho
  | success a e =>
    cases ho
    rw [hk]
    exact hp ha

theorem just {v : α} (hv : f v = []) : (just v : Parser σ α).Spells f := by
  intro c t w d h
  cases h
  rw [hv, List.nil_append]

theorem sequence {ps : List (Parser σ α)} (hps : ∀ p ∈ ps, p.Spells f) :
    (sequence ps).Spells (List.flatMap f) := by
  induction ps with
  | nil => exact .just rfl
  | cons p ps ih =>
    obtain ⟨hp, hrest⟩ := List.forall_mem_cons.mp hps
    exact .map (.andThen hp (ih hrest)) fun v => List.flatMap_cons

theorem literal (text : String) : (literal text : Parser σ String).Spells spell := by
  have hchars : (Parser.sequence (text.toList.map Parser.char) : Parser σ (List Char)).Spells
      (List.flatMap spell) := by
    apply sequence
    intro p hp
    obtain ⟨x, -, rfl⟩ := List.mem_map.mp hp
    exact char x
  refine .map hchars fun v => ?_
  show (String.ofList v).toList = v.flatMap fun x => [x]
  rw [String.toList_ofList, List.flatMap_singleton']

theorem optional (hp : p.Spells f) : (optional p).Spells fun v => v.elim [] f := by
  intro c t v d h
  rcases optional_eq_ok.mp h with ⟨a, e, ha, ho⟩ | ⟨err, e, -, ho⟩
  · cases ho
    exact hp ha
  · cases ho
    rfl

theorem nested (hp : p.Spells f) : (nested p).Spells f := by
  intro c t v d h
  rcases nested_eq_ok.mp h with ⟨-, -, ho⟩ | ⟨-, o, ha, ho⟩
  · cases ho
  · cases o with
    | failure => cases ho
    | success a e =>
      cases ho
      have hinner := hp ha
      rwa [Context.remaining_withLevel] at hinner

/-- A round that is dropped has its text dropped as well: the context is the one before it. -/
theorem repeated (hp : p.Spells f) {n : Nat} {c d : Context σ} {t : List Event} {vs : List α}
    (h : repeated p n c = ⟨t, .ok (vs, d)⟩) : c.remaining = vs.flatMap f ++ d.remaining := by
  induction n generalizing c t vs with
  | zero =>
    rcases repeated_eq_ok.mp h with ⟨err, e, -, rfl, rfl⟩ | ⟨v, e, -, -, rfl, rfl⟩ |
      ⟨v, e, m, ws, t₁, t₂, -, -, hzero, -⟩
    · rfl
    · rfl
    · cases hzero
  | succ n ih =>
    rcases repeated_eq_ok.mp h with ⟨err, e, -, rfl, rfl⟩ | ⟨v, e, -, -, rfl, rfl⟩ |
      ⟨v, e, m, ws, t₁, t₂, ha, -, hsucc, hrest, rfl, -⟩
    · rfl
    · rfl
    · cases hsucc
      rw [hp ha, ih hrest, List.flatMap_cons, List.append_assoc]

theorem many (hp : p.Spells f) : (many p).Spells (List.flatMap f) := by
  intro c t v d h
  obtain ⟨vs, e, hrep, ho⟩ := many_eq_ok.mp h
  cases ho
  exact hp.repeated hrep

theorem many1 (hp : p.Spells f) : (many1 p).Spells (List.flatMap f) := by
  intro c t v d h
  rcases many1_eq_ok.mp h with ⟨err, e, -, ho⟩ | ⟨t₁, a, e, t₂, vs, e', ha, hrep, -, ho⟩
  · cases ho
  · cases ho
    rw [hp ha, hp.repeated hrep, List.flatMap_cons, List.append_assoc]

end Spells

end Parser

namespace Grammar

variable {κ ρ : Type} {τ : ρ → Type} {σ α : Type}

/-- The grammars of which nothing drops or replaces a value. -/
inductive Verbatim [∀ r, Spelled (τ r)] : {α : Type} → [Spelled α] → Grammar κ τ σ α → Prop where
  | char (x : Char) : Verbatim (.char x)
  | notChar (x : Char) : Verbatim (.notChar x)
  | satisfy (label : String) (p : Char → Bool) : Verbatim (.satisfy label p)
  | literal (text : String) : Verbatim (literal text)
  | charsUntil (x : Char) : Verbatim (.charsUntil x)
  | pattern (p : Pattern) : Verbatim (.pattern p)
  | noChoice {α : Type} [Spelled α] : Verbatim (.noChoice : Grammar κ τ σ α)
  | or {α : Type} [Spelled α] {a b : Grammar κ τ σ α} (ha : Verbatim a) (hb : Verbatim b) :
      Verbatim (.or a b)
  | pair {α β : Type} [Spelled α] [Spelled β] {a : Grammar κ τ σ α} {b : Grammar κ τ σ β}
      (ha : Verbatim a) (hb : Verbatim b) : Verbatim (.pair a b)
  | sequence {α : Type} [Spelled α] {as : List (Grammar κ τ σ α)} (has : ∀ a ∈ as, Verbatim a) :
      Verbatim (sequence as)
  | many {α : Type} [Spelled α] {a : Grammar κ τ σ α} (ha : Verbatim a) : Verbatim (.many a)
  | many1 {α : Type} [Spelled α] {a : Grammar κ τ σ α} (ha : Verbatim a) : Verbatim (.many1 a)
  | optional {α : Type} [Spelled α] {a : Grammar κ τ σ α} (ha : Verbatim a) :
      Verbatim (.optional a)
  | nested {α : Type} [Spelled α] {a : Grammar κ τ σ α} (ha : Verbatim a) : Verbatim (.nested a)
  | ref (r : ρ) : Verbatim (.ref r)

namespace Verbatim

variable [∀ r, Spelled (τ r)] [Spelled α] {g : Grammar κ τ σ α}

theorem foldl_or {a : Grammar κ τ σ α} {as : List (Grammar κ τ σ α)} (ha : Verbatim a)
    (has : ∀ b ∈ as, Verbatim b) : Verbatim (as.foldl .or a) := by
  induction as generalizing a with
  | nil => exact ha
  | cons b as ih =>
    obtain ⟨hb, hrest⟩ := List.forall_mem_cons.mp has
    exact ih (.or ha hb) hrest

theorem choice {as : List (Grammar κ τ σ α)} (has : ∀ a ∈ as, Verbatim a) :
    Verbatim (choice as) := by
  cases as with
  | nil => exact .noChoice
  | cons a as =>
    obtain ⟨ha, hrest⟩ := List.forall_mem_cons.mp has
    exact foldl_or ha hrest

theorem anyCharOf (chars : List Char) : Verbatim (anyCharOf chars : Grammar κ τ σ Char) := by
  apply choice
  intro a ha
  obtain ⟨x, -, rfl⟩ := List.mem_map.mp ha
  exact .char x

theorem spells_meaning {env : (r : ρ) → Parser σ (τ r)} (hg : Verbatim g)
    (henv : ∀ r, (env r).Spells spell) : (g.meaning env).Spells spell := by
  induction hg with
  | char x => exact .char x
  | notChar x => exact .notChar x
  | satisfy label p => exact .satisfy label p
  | literal text =>
    rw [meaning_literal]
    exact .literal text
  | charsUntil x => exact .charsUntil x
  | pattern p => exact .pattern p
  | noChoice => exact .fail _
  | or _ _ iha ihb => exact .or iha ihb
  | pair _ _ iha ihb => exact .pair iha ihb
  | sequence _ ih =>
    rw [meaning_sequence]
    apply Parser.Spells.sequence
    intro p hp
    obtain ⟨a, ha, rfl⟩ := List.mem_map.mp hp
    exact ih a ha
  | many _ ih => exact .many ih
  | many1 _ ih => exact .many1 ih
  | optional _ ih => exact .optional ih
  | nested _ ih => exact .nested ih
  | ref r => exact henv r

end Verbatim

variable [∀ r, Spelled (τ r)] {rules : (r : ρ) → Grammar κ τ σ (τ r)}

theorem spells_unfold (hrules : ∀ r, Verbatim (rules r)) (depth : Nat) (r : ρ) :
    (unfold rules depth r).Spells spell := by
  induction depth generalizing r with
  | zero =>
    intro c t v d h
    cases h
  | succ depth ih => exact (hrules r).spells_meaning ih

/-- The text of the value, followed by what remains, is what there was to read. -/
theorem run_spell_append [Spelled α] {g : Grammar κ τ σ α} {depth : Nat} {c d : Context σ}
    {t : List Event} {v : α} (hrules : ∀ r, Verbatim (rules r)) (hg : Verbatim g)
    (h : run rules depth g c = ⟨t, .ok (.success v d)⟩) : spell v ++ d.remaining = c.remaining :=
  (hg.spells_meaning (spells_unfold hrules depth) h).symm

def separated : Unit → Grammar Empty (fun _ : Unit => List Char × Option Char) σ
    (List Char × Option Char) := fun _ =>
  pair (many1 (satisfy "digit" Char.isDigit)) (optional (nested (anyCharOf ['.', '·'])))

def version : Grammar Empty (fun _ : Unit => List Char × Option Char) σ
    (String × List (List Char × Option Char)) :=
  pair (literal "né") (many (ref ()))

/-- The last round finds no digit; what it tried is neither in the value nor consumed. -/
theorem version_spell_append :
    let c := Context.start ['n', 'é', '1', '·', '2', '3', 'x'] ()
    (∀ r, Verbatim (separated r : Grammar Empty _ Unit _)) ∧
    Verbatim (version : Grammar Empty _ Unit _) ∧
    ∃ t v d, run separated 1 version c = ⟨t, .ok (.success v d)⟩ ∧
      v = ("né", [(['1'], some '·'), (['2', '3'], none)]) ∧ d.remaining = ['x'] ∧
      spell v ++ d.remaining = c.remaining := by
  intro c
  have hrules (r : Unit) : Verbatim (separated r : Grammar Empty _ Unit _) :=
    .pair (.many1 (.satisfy "digit" Char.isDigit)) (.optional (.nested (.anyCharOf ['.', '·'])))
  have hgrammar : Verbatim (version : Grammar Empty _ Unit _) :=
    .pair (.literal "né") (.many (.ref ()))
  have hends : (run separated 1 version c).result.isOk = true := by decide +kernel
  have hvalue : (run separated 1 version c).result.toOption.bind Outcome.value? =
    some ("né", [(['1'], some '·'), (['2', '3'], none)]) := by decide +kernel
  have hrest : (run separated 1 version c).result.toOption.map (·.context.remaining) =
    some ['x'] := by decide +kernel
  obtain ⟨o, ran⟩ := Run.exists_of_isOk hends
  rw [ran] at hvalue hrest
  cases o with
  | failure => cases hvalue
  | success v d =>
    have hv : v = ("né", [(['1'], some '·'), (['2', '3'], none)]) := Option.some.inj hvalue
    have hd : d.remaining = ['x'] := Option.some.inj hrest
    exact ⟨hrules, hgrammar, _, v, d, ran, hv, hd, run_spell_append hrules hgrammar ran⟩

end Grammar

end StreamParser
