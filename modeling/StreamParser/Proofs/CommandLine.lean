import Mathlib.Data.List.Chain
import StreamParser.CommandLine
import StreamParser.Proofs.QuotedText

/-!
# Command lines are read as they are written

A written command line is a name, written parameters and spaces at the end. Names and bare values hold no
space, quoted values no quote, and a bare value is followed by a space or by nothing; all other spaces are
free. Read back, the line gives its command, whatever the state is, and nothing of it is left.
-/

namespace StreamParser

inductive WrittenValue where
  | bare (text : List Char) (ne_nil : text ≠ []) (no_space : ' ' ∉ text)
      (no_quote : text.head? ≠ some '"')
  | quoted (text : List Char) (ne_nil : text ≠ []) (no_quote : '"' ∉ text)

namespace WrittenValue

def IsBare : WrittenValue → Prop
  | bare .. => True
  | quoted .. => False

def value : WrittenValue → String
  | bare text .. => String.ofList text
  | quoted text .. => String.ofList text

def text : WrittenValue → List Char
  | bare text .. => text
  | quoted text .. => '"' :: (text ++ ['"'])

theorem head?_text_append_ne (v : WrittenValue) (rest : List Char) :
    (v.text ++ rest).head? ≠ some ' ' := by
  cases v with
  | bare text hne hspace _ =>
    cases text with
    | nil => exact absurd rfl hne
    | cons x text =>
      intro hx
      exact hspace (Option.some.inj hx ▸ List.mem_cons_self)
  | quoted text _ _ =>
    intro hx
    exact absurd (Option.some.inj hx) (by decide)

end WrittenValue

/-- A parameter as it is written: `before` spaces, a dash, the name, one space and `further` more, the value. -/
structure WrittenParameter where
  before : Nat
  name : List Char
  further : Nat
  value : WrittenValue
  name_ne_nil : name ≠ []
  no_space : ' ' ∉ name

namespace WrittenParameter

def parameter (w : WrittenParameter) : String × String := (String.ofList w.name, w.value.value)

def text (w : WrittenParameter) : List Char :=
  List.replicate w.before ' ' ++
    (('-' :: w.name) ++ (List.replicate (w.further + 1) ' ' ++ w.value.text))

end WrittenParameter

/-- A bare value ends at a space, so a parameter behind it has to begin with one. -/
def Apart (ws : List WrittenParameter) : Prop :=
  ws.IsChain fun w v => w.value.IsBare → 0 < v.before

def commandText (name : String) (ws : List WrittenParameter) (trailing : Nat) : List Char :=
  name.toList ++ (ws.flatMap WrittenParameter.text ++ List.replicate trailing ' ')

theorem head?_replicate_append {n : Nat} (h : 0 < n) (x : Char) (rest : List Char) :
    (List.replicate n x ++ rest).head? = some x := by
  obtain ⟨m, rfl⟩ : ∃ m, n = m + 1 := ⟨n - 1, by omega⟩
  rfl

theorem Apart.head?_eq {w : WrittenParameter} {ws : List WrittenParameter} (h : Apart (w :: ws))
    (hbare : w.value.IsBare) (trailing : Nat) :
    ∀ y ∈ (ws.flatMap WrittenParameter.text ++ List.replicate trailing ' ').head?, y = ' ' := by
  intro y hy
  cases ws with
  | nil => exact (List.mem_replicate.mp (List.mem_of_mem_head? hy)).2
  | cons v ws =>
    have hbefore : 0 < v.before := (List.isChain_cons_cons.mp h).1 hbare
    rw [List.flatMap_cons, WrittenParameter.text, List.append_assoc, List.append_assoc,
      head?_replicate_append hbefore] at hy
    exact (Option.mem_some.mp hy).symm

namespace Parser

variable {σ : Type}

theorem commandName_takes {name : String} (h : name ∈ Command.names) (rest : List Char) :
    (commandName : Parser σ String).Takes name.toList name rest := by
  have hrefuses {other : String} (hne : other.toList ≠ []) (hname : name.toList ≠ [])
      (hhead : name.toList.head? ≠ other.toList.head?) :
      (literal other : Parser σ String).Refuses (name.toList ++ rest) := by
    apply Refuses.literal hne
    rwa [List.head?_append_of_ne_nil _ hname]
  have htakes : (literal name : Parser σ String).Takes name.toList name rest := .literal name rest
  simp only [Command.names, List.mem_cons, List.not_mem_nil, or_false] at h
  rcases h with rfl | rfl | rfl
  · exact .choice [] [literal "Clear-Host", literal "Get-Item"] (by simp) htakes
  · have hbefore : ∀ q ∈ [literal "Show-Apps"], q.Refuses ("Clear-Host".toList ++ rest) :=
      List.forall_mem_singleton.mpr (hrefuses (by decide) (by decide) (by decide))
    exact .choice [literal "Show-Apps"] [literal "Get-Item"] hbefore htakes
  · have hbefore : ∀ q ∈ [literal "Show-Apps", literal "Clear-Host"],
        q.Refuses ("Get-Item".toList ++ rest) :=
      List.forall_mem_cons.mpr ⟨hrefuses (by decide) (by decide) (by decide),
        List.forall_mem_singleton.mpr (hrefuses (by decide) (by decide) (by decide))⟩
    exact .choice [literal "Show-Apps", literal "Clear-Host"] [] hbefore htakes

theorem parameterValue_takes (v : WrittenValue) {rest : List Char}
    (h : v.IsBare → ∀ y ∈ rest.head?, y = ' ') :
    (parameterValue : Parser σ String).Takes v.text v.value rest := by
  cases v with
  | bare text hne hspace hquote =>
    have hhead : (text ++ rest).head? ≠ some '"' := by
      rwa [List.head?_append_of_ne_nil _ hne]
    exact .or_second (Refuses.char hhead).between_left (.charsUntil hne hspace (h trivial))
  | quoted text hne hquote => exact .or_first (delimited_takes '"' '"' hne hquote rest)

theorem parameter_takes (w : WrittenParameter) {rest : List Char}
    (h : w.value.IsBare → ∀ y ∈ rest.head?, y = ' ') :
    (parameter : Parser σ (String × String)).Takes w.text w.parameter rest := by
  have hvalue : (preceded skipSpaces parameterValue : Parser σ String).Takes
      (List.replicate (w.further + 1) ' ' ++ w.value.text) w.value.value rest :=
    .preceded (.skipSpaces _ (w.value.head?_text_append_ne rest)) (parameterValue_takes w.value h)
  have hspace : ∀ y ∈ (List.replicate (w.further + 1) ' ' ++ w.value.text ++ rest).head?, y = ' ' := by
    intro y hy
    exact (Option.mem_some.mp hy).symm
  have hname : (preceded (char '-') (charsUntil ' ') : Parser σ String).Takes
      ('-' :: w.name) (String.ofList w.name)
      (List.replicate (w.further + 1) ' ' ++ w.value.text ++ rest) :=
    .preceded (.char '-' _) (.charsUntil w.name_ne_nil w.no_space hspace)
  exact .preceded (.skipSpaces w.before (by simp)) (.pair hname hvalue)

theorem parameter_refuses (n : Nat) :
    (parameter : Parser σ (String × String)).Refuses (List.replicate n ' ') := by
  have hspaces : (skipSpaces : Parser σ Unit).Takes (List.replicate n ' ') () [] :=
    .skipSpaces n (by simp)
  have hdash : (char '-' : Parser σ Char).Refuses [] := .char (by simp)
  have hpart : (pair (preceded (char '-') (charsUntil ' ')) (preceded skipSpaces parameterValue) :
      Parser σ (String × String)).Refuses [] := hdash.preceded_first.pair_first
  have hrefuses := Refuses.preceded_second hspaces hpart
  rwa [List.append_nil] at hrefuses

theorem parameters_take {ws : List WrittenParameter} (h : Apart ws) (trailing : Nat) :
    (many parameter : Parser σ (List (String × String))).Takes (ws.flatMap WrittenParameter.text)
      (ws.map WrittenParameter.parameter) (List.replicate trailing ' ') := by
  induction ws with
  | nil => exact .many_nil (parameter_refuses trailing)
  | cons w ws ih =>
    have hne : w.text ≠ [] := by simp [WrittenParameter.text]
    have hrest : Apart ws := h.tail
    exact .many_cons hne (parameter_takes w fun hbare => h.head?_eq hbare trailing) (ih hrest)

theorem commandLine_takes {name : String} (hname : name ∈ Command.names) {ws : List WrittenParameter}
    (hws : Apart ws) (trailing : Nat) :
    (commandLine : Parser σ Command).Takes (commandText name ws trailing)
      ⟨name, ws.map WrittenParameter.parameter⟩ [] := by
  have hend : (preceded skipSpaces endOfStream : Parser σ Unit).Takes
      (List.replicate trailing ' ' ++ []) () [] := .preceded (.skipSpaces trailing (by simp)) .endOfStream
  rw [List.append_nil] at hend
  have hparameters : (many parameter : Parser σ (List (String × String))).Takes
      (ws.flatMap WrittenParameter.text) (ws.map WrittenParameter.parameter)
      (List.replicate trailing ' ' ++ []) := by
    rw [List.append_nil]
    exact parameters_take hws trailing
  exact .lift₂ (commandName_takes hname _) (.terminated hparameters hend)

end Parser

/-- However a command line is written, reading it gives its command, leaves nothing and keeps the state. -/
theorem commandLine_reads_written {σ : Type} {c : Context σ} {name : String}
    (hname : name ∈ Command.names) {ws : List WrittenParameter} (hws : Apart ws) (trailing : Nat)
    (h : c.remaining? = some (commandText name ws trailing)) :
    ∃ t d, Parser.commandLine c =
        ⟨t, .ok (.success ⟨name, ws.map WrittenParameter.parameter⟩ d)⟩ ∧
      d = c.advance (commandText name ws trailing).length ∧
      d.remaining? = some [] ∧ d.state = c.state := by
  have hall : c.remaining? = some (commandText name ws trailing ++ []) := by
    rw [h, List.append_nil]
  obtain ⟨t, ht⟩ := Parser.commandLine_takes hname hws trailing hall
  exact ⟨t, c.consume (commandText name ws trailing), ht, Context.consume_eq_advance hall,
    Context.remaining?_consume hall, rfl⟩

/-- A quoted value with a space and a parameter right behind it, then bare values. -/
theorem commandLine_reads_quoted_and_bare :
    let ws : List WrittenParameter :=
      [⟨0, "Path".toList, 0, .quoted "a b".toList (by decide) (by decide), by decide, by decide⟩,
        ⟨0, "R".toList, 1, .bare "-y\"".toList (by decide) (by decide) (by decide), by decide, by decide⟩,
        ⟨2, "A".toList, 0, .bare "é".toList (by decide) (by decide) (by decide), by decide, by decide⟩]
    let c := Context.start "Get-Item-Path \"a b\"-R  -y\"  -A é ".toList 5
    "Get-Item" ∈ Command.names ∧ Apart ws ∧ c.remaining? = some (commandText "Get-Item" ws 1) ∧
    ∃ t d, Parser.commandLine c = ⟨t, .ok (.success
        ⟨"Get-Item", [("Path", "a b"), ("R", "-y\""), ("A", "é")]⟩ d)⟩ ∧
      d.remaining? = some [] ∧ d.state = 5 := by
  intro ws c
  have hname : "Get-Item" ∈ Command.names := by decide
  have hws : Apart ws := by
    simp [ws, Apart, WrittenValue.IsBare]
  have htext : c.remaining? = some (commandText "Get-Item" ws 1) := by decide
  obtain ⟨t, d, ht, -, hrest, hstate⟩ := commandLine_reads_written hname hws 1 htext
  exact ⟨hname, hws, htext, t, d, ht, hrest, hstate⟩

end StreamParser
