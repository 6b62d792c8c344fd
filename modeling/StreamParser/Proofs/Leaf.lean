import StreamParser.Parser.Pattern
import StreamParser.Parser.Text
import StreamParser.Proofs.Advance

/-!
# What the leaves do

Each leaf in closed form: what remains decides the trace, the value and the context of the outcome.
A leaf that reads halts as misplaced where nothing can be read.
-/

namespace StreamParser

namespace Context

variable {σ β : Type}

theorem reading_of_misplaced {c : Context σ} (h : c.remaining? = none)
    (f : List Char → Run β) : c.reading f = .halt .misplaced := by simp [reading, h]

def mismatchPlace (c : Context σ) : Position :=
  if c.options.bumpOnMismatch then c.position.bumpColumn else c.position

def failMismatch {α : Type} (c : Context σ) (expected found : Char) : Outcome σ α :=
  c.failWith (.located ⟨c.mismatchPlace, .mismatch (.char expected) found⟩)

theorem isEmpty_iff {c : Context σ} {rest : List Char} (h : c.remaining? = some rest) :
    c.isEmpty = true ↔ rest = [] := by
  obtain ⟨before, hi, ho⟩ := dropBytes?_eq_some_iff.1 h
  rw [isEmpty, hi, byteSize_append, ho, decide_eq_true_eq]
  constructor
  · intro hle
    cases rest with
    | nil => rfl
    | cons x rest =>
      have hpos := byteSize_pos (List.cons_ne_nil x rest)
      omega
  · rintro rfl
    rw [byteSize_nil]
    omega

theorem isEmpty_eq_false_iff {c : Context σ} {rest : List Char} (h : c.remaining? = some rest) :
    c.isEmpty = false ↔ rest ≠ [] := by
  rw [← Bool.not_eq_true, isEmpty_iff h]

theorem succeedWith_tail {α : Type} {c : Context σ} {x : Char} {rest : List Char}
    (h : c.remaining? = some (x :: rest)) (v : α) :
    c.succeedWith v rest = pure (.success v (c.consume [x])) := by
  have hsplit : c.remaining? = some ([x] ++ rest) := h
  exact succeedWith_suffix hsplit v

end Context

namespace Parser

variable {σ : Type} {c : Context σ} {x y : Char} {rest : List Char}

/-! ### One character -/

theorem char_nil (h : c.remaining? = some []) (x : Char) :
    char x c = pure (c.fail (.endReached (.char x) c.position.stream)) := by
  simp only [char, Context.reading_of_remaining? h]

theorem char_self (h : c.remaining? = some (x :: rest)) :
    char x c = pure (.success x (c.consume [x])) := by
  simp only [char, Context.reading_of_remaining? h, if_pos, Context.succeedWith_tail h]

theorem char_other (h : c.remaining? = some (y :: rest)) (hne : y ≠ x) :
    char x c = ⟨[.mismatch x y c.position], .ok (c.failMismatch x y)⟩ := by
  simp only [char, Context.reading_of_remaining? h, if_neg hne]
  rfl

theorem char_of_head?_ne (h : c.remaining? = some rest) (hx : rest.head? ≠ some x) :
    ∃ e, char x c = ⟨rest.head?.toList.map (.mismatch x · c.position), .ok (.failure e c)⟩ := by
  cases rest with
  | nil => exact ⟨_, char_nil h x⟩
  | cons y rest =>
    have hne : y ≠ x := by
      intro hy
      exact hx (congrArg some hy)
    exact ⟨_, char_other h hne⟩

theorem notChar_nil (h : c.remaining? = some []) (x : Char) :
    notChar x c = pure (c.fail (.endReached (.char x) c.position.stream)) := by
  simp only [notChar, Context.reading_of_remaining? h]

theorem notChar_self (h : c.remaining? = some (x :: rest)) :
    notChar x c = pure (c.fail (.excluded x x)) := by
  simp only [notChar, Context.reading_of_remaining? h, char_self h, pure_bind]

theorem notChar_other (h : c.remaining? = some (y :: rest)) (hne : y ≠ x) :
    notChar x c = ⟨[.mismatch x y c.position], .ok (.success y (c.consume [y]))⟩ := by
  simp only [notChar, Context.reading_of_remaining? h, char_other h hne,
    Context.succeedWith_tail h]
  rfl

section Satisfy

variable {label : String} {p : Char → Bool}

theorem satisfy_nil (h : c.remaining? = some []) :
    satisfy label p c = pure (c.fail (.endReached (.label label) c.position.stream)) := by
  simp only [satisfy, Context.reading_of_remaining? h]

theorem satisfy_of_true (h : c.remaining? = some (y :: rest)) (hp : p y = true) :
    satisfy label p c = pure (.success y (c.consume [y])) := by
  simp only [satisfy, Context.reading_of_remaining? h, if_pos hp, Context.succeedWith_tail h]

theorem satisfy_of_false (h : c.remaining? = some (y :: rest)) (hp : p y = false) :
    satisfy label p c = pure (c.fail (.mismatch (.label label) y)) := by
  simp [satisfy, Context.reading_of_remaining? h, hp]

end Satisfy

theorem endOfStream_nil (h : c.remaining? = some []) : endOfStream c = pure (c.succeed ()) := by
  simp only [endOfStream, Context.reading_of_remaining? h]

theorem endOfStream_cons (h : c.remaining? = some (y :: rest)) :
    endOfStream c = pure (c.fail (.mismatch .endOfStream y)) := by
  simp only [endOfStream, Context.reading_of_remaining? h]

/-! ### Runs of characters -/

theorem skipSpaces_eq (h : c.remaining? = some rest) :
    skipSpaces c = pure (.success () (c.consume (rest.takeWhile (· = ' ')))) := by
  have hsplit : c.remaining? = some (rest.takeWhile (· = ' ') ++ rest.dropWhile (· = ' ')) := by
    rw [h, List.takeWhile_append_dropWhile]
  simp only [skipSpaces, Context.reading_of_remaining? h, Context.succeedWith_suffix hsplit]

/-- What `notChar unwanted` logs while it accepts the characters of a text one by one. -/
def mismatches (unwanted : Char) : Position → List Char → List Event
  | _, [] => []
  | p, x :: xs => .mismatch unwanted x p :: mismatches unwanted (p.next x) xs

def without (unwanted : Char) (text : List Char) : List Char := text.takeWhile (· ≠ unwanted)

theorem without_append_dropWhile (x : Char) (text : List Char) :
    without x text ++ text.dropWhile (· ≠ x) = text := List.takeWhile_append_dropWhile

theorem not_mem_without (x : Char) (text : List Char) : x ∉ without x text := by
  intro hx
  have hall := List.all_eq_true.mp (List.all_takeWhile (p := (· ≠ x)) (l := text)) x hx
  simp at hall

theorem without_self (x : Char) (text : List Char) : without x (x :: text) = [] := by
  simp [without]

theorem without_other (hne : y ≠ x) (text : List Char) :
    without x (y :: text) = y :: without x text := by
  simp [without, hne]

theorem eq_of_mem_head?_dropWhile {text : List Char} (hy : y ∈ (text.dropWhile (· ≠ x)).head?) :
    y = x := by
  have hnot := List.head?_dropWhile_not (fun z => decide (z ≠ x)) text
  rw [Option.mem_def.mp hy] at hnot
  simpa using hnot

theorem without_append {run : List Char} (hrun : x ∉ run) (hrest : ∀ y ∈ rest.head?, y = x) :
    without x (run ++ rest) = run := by
  have hpass : ∀ y ∈ run, decide (y ≠ x) = true :=
    fun y hy => decide_eq_true fun heq => hrun (heq ▸ hy)
  have hstop : rest.takeWhile (· ≠ x) = [] := by
    cases rest with
    | nil => rfl
    | cons y rest =>
      obtain rfl := hrest y rfl
      exact without_self y rest
  rw [without, List.takeWhile_append_of_pos hpass, hstop, List.append_nil]

theorem runUntil_eq {text bound : List Char} (h : c.remaining? = some text)
    (hb : text.length ≤ bound.length) : runUntil x bound c =
      ⟨mismatches x c.position (without x text), .ok (without x text, c.consume (without x text))⟩ := by
  induction text generalizing c bound with
  | nil =>
    rw [runUntil, notChar_nil h, pure_bind]
    simp [Context.fail, Context.failWith, without, mismatches]
  | cons y text ih =>
    by_cases hy : y = x
    · subst hy
      rw [runUntil, notChar_self h, pure_bind, without_self]
      simp [Context.fail, Context.failWith, mismatches]
    · cases bound with
      | nil => simp at hb
      | cons b bound =>
        have hc : (c.consume [y]).remaining? = some text := Context.remaining?_consume h
        have hrec := ih hc (by simpa using hb)
        rw [runUntil, notChar_other h hy, Run.ok_bind]
        simp only [hrec, Run.ok_bind, Run.pure_eq, without_other hy, mismatches,
          List.append_nil, List.singleton_append]
        rw [← Context.consume_append]
        rfl

theorem charsUntil_eq {text : List Char} (h : c.remaining? = some text) :
    charsUntil x c =
      if without x text = [] then pure (c.fail (.emptyRun x))
      else ⟨mismatches x c.position (without x text),
        .ok (.success (String.ofList (without x text)) (c.consume (without x text)))⟩ := by
  have hb : text.length ≤ c.remaining.length := by simp only [Context.remaining_eq h, Nat.le_refl]
  have hrun := runUntil_eq (x := x) h hb
  simp only [charsUntil, hrun, Run.ok_bind, List.isEmpty_iff]
  split
  · rename_i he
    simp [he, mismatches]
  · simp

theorem charsUntil_of_misplaced (h : c.remaining? = none) (x : Char) :
    charsUntil x c = .halt .misplaced := by
  have hrun (bound : List Char) : runUntil x bound c = .halt .misplaced := by
    cases bound <;> rw [runUntil, notChar, Context.reading_of_misplaced h] <;> rfl
  rw [charsUntil, hrun]
  rfl

/-! ### Patterns -/

theorem pattern_of_isEmpty (h : c.isEmpty = true) (p : Pattern) :
    pattern p c = pure (c.fail (.patternAtEnd (String.ofList p.source))) := by
  simp only [pattern, h, if_pos]

theorem pattern_of_misplaced (he : c.isEmpty = false) (h : c.remaining? = none) (p : Pattern) :
    pattern p c = .halt .misplaced := by
  simp [pattern, he, Context.reading_of_misplaced h]

theorem pattern_of_none {text : List Char} {p : Pattern} (he : c.isEmpty = false)
    (h : c.remaining? = some text) (hm : p.match? text = none) : pattern p c =
      pure (c.fail (.patternMismatch (String.ofList text) (String.ofList p.source))) := by
  simp [pattern, he, Context.reading_of_remaining? h, hm]

theorem pattern_of_some {text taken : List Char} {p : Pattern} {m : PatternMatch}
    (he : c.isEmpty = false) (h : c.remaining? = some text)
    (hm : p.match? text = some (m, rest)) (hs : text = taken ++ rest) :
    pattern p c = pure (.success m (c.consume taken)) := by
  subst hs
  simp only [pattern, he, Bool.false_eq_true, if_false, Context.reading_of_remaining? h, hm,
    Context.succeedWith_suffix h]

end Parser

namespace Pattern

theorem longest?_split {p : Pattern} {text taken rest : List Char}
    (h : p.longest? text = some (taken, rest)) : text = taken ++ rest ∧ taken ≠ [] := by
  have hmem := (List.mem_filter.mp (List.mem_of_getLast? h)).1
  obtain ⟨k, hk, hsplit⟩ := List.mem_map.mp hmem
  rw [List.mem_range] at hk
  rw [List.splitAt_eq, Prod.mk.injEq] at hsplit
  obtain ⟨rfl, rfl⟩ := hsplit
  refine ⟨(List.take_append_drop _ _).symm, ?_⟩
  intro hnil
  have hlen := congrArg List.length hnil
  simp only [List.length_take, List.length_nil] at hlen
  omega

/-- A match and the rest behind it: the longest first part that matches, with the groups found in that part. -/
theorem match?_eq_some_iff {p : Pattern} {text rest : List Char} {m : PatternMatch} :
    p.match? text = some (m, rest) ↔ ∃ taken texts, p.longest? text = some (taken, rest) ∧
      p.enclosed.captures? taken = some texts ∧
      m = ⟨String.ofList taken, texts.map (·.map String.ofList)⟩ := by
  simp only [match?, Option.bind_eq_bind, Option.bind_eq_some_iff, Option.pure_def, Option.some.injEq,
    Prod.mk.injEq]
  constructor
  · rintro ⟨⟨taken, rest'⟩, hlongest, texts, htexts, rfl, rfl⟩
    exact ⟨taken, texts, hlongest, htexts, rfl⟩
  · rintro ⟨taken, texts, hlongest, htexts, rfl⟩
    exact ⟨(taken, rest), hlongest, texts, htexts, rfl, rfl⟩

theorem match?_split {p : Pattern} {text rest : List Char} {m : PatternMatch}
    (h : p.match? text = some (m, rest)) :
    ∃ taken, text = taken ++ rest ∧ taken ≠ [] ∧ m.text = String.ofList taken := by
  obtain ⟨taken, texts, hlongest, -, rfl⟩ := match?_eq_some_iff.mp h
  obtain ⟨hsplit, hne⟩ := longest?_split hlongest
  exact ⟨taken, hsplit, hne, rfl⟩

end Pattern

theorem Parser.pattern_eq_success {σ : Type} {p : Pattern} {c d : Context σ} {t : List Event} {m : PatternMatch}
    (h : pattern p c = ⟨t, .ok (.success m d)⟩) :
    ∃ taken rest, c.remaining? = some (taken ++ rest) ∧ p.match? (taken ++ rest) = some (m, rest) ∧
      d = c.consume taken := by
  cases he : c.isEmpty with
  | true =>
    rw [pattern_of_isEmpty he] at h
    cases h
  | false =>
    rcases hr : c.remaining? with _ | text
    · rw [pattern_of_misplaced he hr] at h
      cases h
    · rcases hm : p.match? text with _ | ⟨m', rest⟩
      · rw [pattern_of_none he hr hm] at h
        cases h
      · obtain ⟨taken, rfl, -, -⟩ := Pattern.match?_split hm
        rw [pattern_of_some he hr hm rfl] at h
        cases h
        exact ⟨taken, rest, rfl, hm, rfl⟩

end StreamParser
