import StreamParser.Proofs.NormalForm

/-!
# Ways forward

A context goes forward by a number of characters or to a rest of its text, and the offset is moved by bytes.
All of them agree, since in the UTF-8 form of a text no byte inside a character can be the first of another:
bytes that end a text and are themselves those of a text stand behind a whole number of characters
(`dropBytes?_eq_some_iff_utf8`). The position counts the characters, the lines and the columns passed.
-/

namespace StreamParser

/-! ### Texts as bytes -/

def utf8 (cs : List Char) : List UInt8 := cs.flatMap String.utf8EncodeChar

theorem utf8_cons (c : Char) (cs : List Char) : utf8 (c :: cs) = String.utf8EncodeChar c ++ utf8 cs :=
  List.flatMap_cons

theorem utf8_append (as bs : List Char) : utf8 (as ++ bs) = utf8 as ++ utf8 bs := List.flatMap_append

theorem length_utf8 (cs : List Char) : (utf8 cs).length = byteSize cs := by
  induction cs with
  | nil => rfl
  | cons c cs ih => rw [utf8_cons, List.length_append, String.length_utf8EncodeChar, ih, byteSize_cons]

theorem utf8_inj {as bs : List Char} (h : utf8 as = utf8 bs) : as = bs := by
  apply String.ofList_inj.mp
  apply String.toByteArray_inj.mp
  show as.utf8Encode = bs.utf8Encode
  rw [List.utf8Encode, List.utf8Encode]
  exact congrArg List.toByteArray h

theorem utf8_ne_inside {c : Char} {n : Nat} (hn : n + 1 < c.utf8Size) (text : List Char) {rest : List Char}
    (hrest : rest ≠ []) : utf8 rest ≠ (utf8 (c :: text)).drop (n + 1) := by
  obtain ⟨y, ys, rfl⟩ := List.exists_cons_of_ne_nil hrest
  intro h
  have hinside : n + 1 < (String.utf8EncodeChar c).length := by rwa [String.length_utf8EncodeChar]
  have hstart : 0 < (String.utf8EncodeChar y).length := by
    rw [String.length_utf8EncodeChar]
    exact y.utf8Size_pos
  have hbyte := congrArg (·[0]?) h
  simp only [utf8_cons, List.getElem?_drop, Nat.add_zero, List.getElem?_append_left hinside,
    List.getElem?_append_left hstart, List.getElem?_eq_getElem hinside, List.getElem?_eq_getElem hstart,
    Option.some.injEq] at hbyte
  have hfirst : (String.utf8EncodeChar y)[0].IsUTF8FirstByte := UInt8.isUTF8FirstByte_getElem_zero_utf8EncodeChar
  rw [hbyte, UInt8.isUTF8FirstByte_getElem_utf8EncodeChar] at hfirst
  exact Nat.succ_ne_zero n hfirst

theorem dropBytes?_eq_some_iff_utf8 {n : Nat} {text rest : List Char} :
    dropBytes? n text = some rest ↔ n ≤ byteSize text ∧ utf8 rest = (utf8 text).drop n := by
  constructor
  · intro h
    obtain ⟨taken, rfl, rfl⟩ := dropBytes?_eq_some_iff.mp h
    rw [byteSize_append, utf8_append, ← length_utf8 taken, List.drop_left]
    exact ⟨Nat.le_add_right _ _, rfl⟩
  · rintro ⟨hn, h⟩
    induction text generalizing n with
    | nil =>
      obtain rfl : n = 0 := Nat.le_zero.mp hn
      rw [utf8_inj h, dropBytes?_zero]
    | cons c text ih =>
      cases n with
      | zero => rw [utf8_inj h, dropBytes?_zero]
      | succ n =>
        rw [byteSize_cons] at hn
        by_cases hc : c.utf8Size ≤ n + 1
        · rw [dropBytes?, if_pos hc]
          apply ih (by omega)
          have hpassed : (String.utf8EncodeChar c).drop (n + 1) = [] := by
            apply List.drop_of_length_le
            rwa [String.length_utf8EncodeChar]
          rw [h, utf8_cons, List.drop_append, hpassed, List.nil_append, String.length_utf8EncodeChar]
        · have hrest : rest ≠ [] := by
            rintro rfl
            have hlength := congrArg List.length h
            rw [List.length_drop, length_utf8, length_utf8, byteSize_nil, byteSize_cons] at hlength
            omega
          exact absurd h (utf8_ne_inside (by omega) text hrest)

theorem utf8_suffix_iff {rest text : List Char} : utf8 rest <:+ utf8 text ↔ rest <:+ text := by
  constructor
  · intro h
    have hle := h.length_le
    rw [length_utf8, length_utf8] at hle
    have hdrop : utf8 rest = (utf8 text).drop (byteSize text - byteSize rest) := by
      have heq := List.suffix_iff_eq_drop.mp h
      rwa [length_utf8, length_utf8] at heq
    have hrest := dropBytes?_eq_some_iff_utf8.mpr ⟨Nat.sub_le _ _, hdrop⟩
    obtain ⟨taken, htext, -⟩ := dropBytes?_eq_some_iff.mp hrest
    exact ⟨taken, htext.symm⟩
  · rintro ⟨taken, rfl⟩
    rw [utf8_append]
    exact List.suffix_append _ _

/-! ### Positions -/

theorem Position.advance_column_of_newline (p : Position) (before : List Char) {after : List Char}
    (hafter : '\n' ∉ after) : (p.advance (before ++ '\n' :: after)).column = after.length := by
  rw [advance_append, advance_cons, advance_column, if_neg hafter, next, if_pos rfl, Nat.zero_add]

/-! ### By a number of characters, and to a rest -/

namespace Context

variable {σ : Type} {c d e : Context σ} {a b rest : List Char}

theorem advance_of_length_le {k : Nat} (hk : c.remaining.length ≤ k) :
    c.advance k = c.advance c.remaining.length := by
  rw [advance, advance, List.take_of_length_le hk, List.take_length]

theorem advanceTo?_eq_some_iff :
    c.advanceTo? rest = some d ↔ ∃ taken, c.remaining = taken ++ rest ∧ d = c.consume taken := by
  constructor
  · intro h
    unfold advanceTo? at h
    split at h
    · rename_i hsuffix
      obtain ⟨taken, htaken⟩ := List.isSuffixOf_iff_suffix.mp hsuffix
      refine ⟨taken, htaken.symm, ?_⟩
      rw [← htaken, List.length_append, Nat.add_sub_cancel, List.take_left] at h
      exact (Option.some.inj h).symm
    · cases h
  · rintro ⟨taken, htaken, rfl⟩
    have hsuffix : rest.isSuffixOf c.remaining = true :=
      List.isSuffixOf_iff_suffix.mpr ⟨taken, htaken.symm⟩
    rw [advanceTo?, if_pos hsuffix, htaken, List.length_append, Nat.add_sub_cancel, List.take_left]

theorem advanceTo?_drop (c : Context σ) (k : Nat) : c.advanceTo? (c.remaining.drop k) = some (c.advance k) :=
  advanceTo?_eq_some_iff.mpr ⟨c.remaining.take k, (List.take_append_drop k c.remaining).symm, rfl⟩

theorem isSome_advanceTo?_iff : (c.advanceTo? rest).isSome ↔ rest <:+ c.remaining := by
  rw [Option.isSome_iff_exists]
  constructor
  · rintro ⟨d, h⟩
    obtain ⟨taken, htaken, -⟩ := advanceTo?_eq_some_iff.mp h
    exact ⟨taken, htaken.symm⟩
  · rintro ⟨taken, htaken⟩
    exact ⟨c.consume taken, advanceTo?_eq_some_iff.mpr ⟨taken, htaken.symm, rfl⟩⟩

theorem offset_of_advanceTo? (h : c.advanceTo? rest = some d) :
    d.offset = c.offset + (byteSize c.remaining - byteSize rest) := by
  obtain ⟨taken, htaken, rfl⟩ := advanceTo?_eq_some_iff.mp h
  rw [htaken, byteSize_append, Nat.add_sub_cancel]
  rfl

theorem advanceTo?_trans (hc : c.Placed) (hd : c.advanceTo? a = some d) (he : d.advanceTo? b = some e) :
    c.advanceTo? b = some e := by
  obtain ⟨taken, htaken, rfl⟩ := advanceTo?_eq_some_iff.mp hd
  obtain ⟨further, hfurther, rfl⟩ := advanceTo?_eq_some_iff.mp he
  have hsplit : c.remaining? = some (taken ++ a) := by rw [remaining?_of_placed hc, htaken]
  rw [remaining_eq (remaining?_consume hsplit)] at hfurther
  refine advanceTo?_eq_some_iff.mpr ⟨taken ++ further, ?_, (consume_append c taken further).symm⟩
  rw [htaken, hfurther, List.append_assoc]

theorem succeedWith_of_placed {α : Type} (hc : c.Placed) (v : α) (rest : List Char) :
    c.succeedWith v rest = pure ((c.advanceTo? rest).elim (c.fail .notTheRest) (.success v)) := by
  rw [succeedWith, reading_of_remaining? (remaining?_of_placed hc)]
  cases c.advanceTo? rest <;> rfl

end Context

/-- Advances add up and stop at the end of the text. A rest can be advanced to if it is what some number of
characters leaves, which is to say if its bytes end those of the text, and then this is the advance by that
number, be it made at once or in two steps, or carried by a success; else the success is a failure that stays.
The position counts the characters that were passed, the newlines, and the characters since the last. -/
theorem ways_forward_agree {σ : Type} {c : Context σ} (hc : c.Placed) :
    (∀ m n, (c.advance m).advance n = c.advance (m + n)) ∧
    (∀ k, (c.advance k).remaining? = some (c.remaining.drop k)) ∧
    (∀ k, c.remaining.length ≤ k → c.advance k = c.advance c.remaining.length) ∧
    (∀ rest, ((c.advanceTo? rest).isSome ↔ ∃ k, rest = c.remaining.drop k) ∧
      ((c.advanceTo? rest).isSome ↔ utf8 rest <:+ utf8 c.remaining)) ∧
    (∀ k, c.advanceTo? (c.remaining.drop k) = some (c.advance k)) ∧
    (∀ rest d, c.advanceTo? rest = some d → d.offset = c.offset + (byteSize c.remaining - byteSize rest)) ∧
    (∀ a b d e, c.advanceTo? a = some d → d.advanceTo? b = some e → c.advanceTo? b = some e) ∧
    (∀ (α : Type) (v : α) rest,
      (∀ d, c.advanceTo? rest = some d → c.succeedWith v rest = pure (.success v d)) ∧
      (c.advanceTo? rest = none → c.succeedWith v rest = pure (c.fail .notTheRest))) ∧
    ∀ k ≤ c.remaining.length,
      let taken := c.remaining.take k
      let p := (c.advance k).position
      p.stream = c.position.stream ∧ p.index = c.position.index + k ∧
      p.line = c.position.line + taken.count '\n' ∧
      ('\n' ∉ taken → p.column = c.position.column + k) ∧
      ∀ before after, taken = before ++ '\n' :: after → '\n' ∉ after → p.column = after.length := by
  refine ⟨c.advance_advance, ?_, fun k => Context.advance_of_length_le, fun rest => ⟨?_, ?_⟩,
    c.advanceTo?_drop, fun rest d => Context.offset_of_advanceTo?,
    fun a b d e => Context.advanceTo?_trans hc, fun α v rest => ⟨?_, ?_⟩, fun k hk => ?_⟩
  · intro k
    rw [Context.remaining?_advance, Context.remaining?_of_placed hc, Option.map_some]
  · rw [Context.isSome_advanceTo?_iff]
    constructor
    · intro h
      exact ⟨_, List.suffix_iff_eq_drop.mp h⟩
    · rintro ⟨k, rfl⟩
      exact List.drop_suffix k c.remaining
  · rw [Context.isSome_advanceTo?_iff, utf8_suffix_iff]
  · intro d hd
    rw [Context.succeedWith_of_placed hc, hd]
    rfl
  · intro hnone
    rw [Context.succeedWith_of_placed hc, hnone]
    rfl
  · have hlength : (c.remaining.take k).length = k := List.length_take_of_le hk
    refine ⟨Position.advance_stream _ _, ?_, Position.advance_line _ _, fun hno => ?_, ?_⟩
    · rw [Context.position_advance, Position.advance_index, hlength]
    · rw [Context.position_advance, Position.advance_column, if_neg hno, hlength]
    · intro before after htaken hafter
      rw [Context.position_advance, htaken, Position.advance_column_of_newline _ _ hafter]

/-- The rest occurs twice in the text, which has two newlines and a character of two bytes. -/
theorem ways_forward_agree_past_newlines :
    let c := Context.start ['é', '\n', 'a', 'b', '\n', 'a', 'b'] ()
    c.Placed ∧ (c.advance 2).advance 3 = c.advance 5 ∧ c.advanceTo? ['a', 'b'] = some (c.advance 5) ∧
    c.succeedWith 'v' ['a', 'b'] = pure (.success 'v' (c.advance 5)) ∧
    c.succeedWith 'v' ['a'] = pure (c.fail .notTheRest) ∧ c.advance 9 = c.advance 7 ∧
    (c.advance 6).position.index = 6 ∧ (c.advance 6).position.line = 3 ∧ (c.advance 6).position.column = 1 := by
  intro c
  have hc : c.Placed := by decide
  obtain ⟨hadd, -, hstop, -, hto, -, -, hsucceed, hposition⟩ := ways_forward_agree hc
  obtain ⟨-, hindex, hline, -, hcolumn⟩ := hposition 6 (by decide)
  exact ⟨hc, hadd 2 3, hto 5, (hsucceed Char 'v' _).1 _ (hto 5), (hsucceed Char 'v' _).2 (by decide),
    hstop 9 (by decide), hindex, hline, hcolumn ['é', '\n', 'a', 'b'] ['a'] rfl (by decide)⟩

end StreamParser
