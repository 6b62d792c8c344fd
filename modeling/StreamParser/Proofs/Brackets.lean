import StreamParser.Proofs.NestLaw
import StreamParser.Proofs.NestLimit
import StreamParser.Proofs.Takes

/-!
# Balanced brackets

Brackets around brackets are all closed or all given back: at every level the closing bracket stands right
behind what the level below has read, and if that has read nothing, an opening one stands there. With a
nest level for each pair, too many pairs are given back in the same way, from the level that is refused.
-/

namespace StreamParser

variable {σ : Type}

/-! ### Counting brackets -/

def leading (x : Char) (text : List Char) : Nat := (text.takeWhile (· = x)).length

def openings (text : List Char) : Nat := leading '(' text

def closings (text : List Char) : Nat := leading ')' (text.drop (openings text))

/-- All opening brackets, if that is allowed and there are as many closing ones. -/
def pairs (allowed : Prop) [Decidable allowed] (text : List Char) : Nat :=
  if allowed ∧ openings text ≤ closings text then openings text else 0

theorem leading_self (x : Char) (text : List Char) : leading x (x :: text) = leading x text + 1 := by
  simp [leading]

theorem leading_other {x y : Char} (hne : y ≠ x) (text : List Char) : leading x (y :: text) = 0 := by
  simp [leading, hne]

theorem head?_drop_eq_iff {x : Char} {text : List Char} {k : Nat} (hk : k ≤ leading x text) :
    (text.drop k).head? = some x ↔ k < leading x text := by
  induction text generalizing k with
  | nil => simp [leading] at hk ⊢
  | cons y text ih =>
    by_cases hy : y = x
    · subst hy
      rw [leading_self] at hk ⊢
      cases k with
      | zero => simp
      | succ k =>
        rw [List.drop_succ_cons, ih (by omega)]
        omega
    · rw [leading_other hy] at hk ⊢
      obtain rfl : k = 0 := by omega
      simp [hy]

theorem head?_eq_iff {x : Char} {text : List Char} : text.head? = some x ↔ 0 < leading x text :=
  head?_drop_eq_iff (Nat.zero_le _)

theorem openings_cons (text : List Char) : openings ('(' :: text) = openings text + 1 :=
  leading_self '(' text

theorem closings_cons (text : List Char) : closings ('(' :: text) = closings text := by
  rw [closings, openings_cons, List.drop_succ_cons, closings]

section Pairs

variable {allowed : Prop} [Decidable allowed] {text : List Char}

/-- A closing bracket stands behind the pairs if they are all there and one more is closed. What is not
allowed must have an opening bracket to begin with. -/
theorem closes_iff (hsome : ¬ allowed → 0 < openings text) :
    (text.drop (2 * pairs allowed text)).head? = some ')' ↔
      allowed ∧ openings text < closings text := by
  by_cases hall : allowed ∧ openings text ≤ closings text
  · have hsplit : text.drop (2 * openings text) =
        (text.drop (openings text)).drop (openings text) := by
      rw [List.drop_drop, Nat.two_mul]
    rw [pairs, if_pos hall, hsplit, head?_drop_eq_iff hall.2]
    constructor
    · intro hlt
      exact ⟨hall.1, hlt⟩
    · intro hlt
      exact hlt.2
  · have hpos : 0 < openings text := by
      by_cases hallowed : allowed
      · have hgt : ¬ openings text ≤ closings text := fun hle => hall ⟨hallowed, hle⟩
        omega
      · exact hsome hallowed
    -- Nothing is read, so the text still begins with an opening bracket.
    have hhead : text.head? = some '(' := head?_eq_iff.mpr hpos
    rw [pairs, if_neg hall, Nat.mul_zero, List.drop_zero, hhead]
    constructor
    · intro hclose
      cases hclose
    · intro hlt
      exact absurd ⟨hlt.1, Nat.le_of_lt hlt.2⟩ hall

theorem pairs_cons_of_closed (h : allowed ∧ openings text < closings text) :
    pairs allowed ('(' :: text) = pairs allowed text + 1 := by
  have hinner : allowed ∧ openings text ≤ closings text := ⟨h.1, Nat.le_of_lt h.2⟩
  have houter : allowed ∧ openings text + 1 ≤ closings text := h
  rw [pairs, pairs, openings_cons, closings_cons, if_pos hinner, if_pos houter]

theorem pairs_cons_of_open (h : ¬ (allowed ∧ openings text < closings text)) :
    pairs allowed ('(' :: text) = 0 := by
  have houter : ¬ (allowed ∧ openings text + 1 ≤ closings text) := h
  rw [pairs, openings_cons, closings_cons, if_neg houter]

theorem pairs_of_no_opening (h : text.head? ≠ some '(') : pairs allowed text = 0 := by
  have hzero : openings text = 0 := by
    have hnot : ¬ 0 < openings text := fun hpos => h (head?_eq_iff.mpr hpos)
    omega
  rw [pairs, hzero]
  exact ite_self 0

theorem pairs_of_not_allowed (h : ¬ allowed) : pairs allowed text = 0 := by
  apply if_neg
  intro hall
  exact h hall.1

theorem pairs_congr {allowed' : Prop} [Decidable allowed'] (h : allowed ↔ allowed') (text : List Char) :
    pairs allowed text = pairs allowed' text := by
  simp only [pairs, h]

end Pairs

/-! ### One level -/

namespace Parser

variable {α β γ δ : Type} {c d : Context σ} {t : List Event} {text : List Char} {n : Nat}

theorem or_preceded_eq_or_between (f : β → γ) (l : Parser σ α) (m : Parser σ β) (r : Parser σ δ)
    (q : Parser σ γ) :
    or (map f (preceded l (terminated m r))) q = or (map f (between l m r)) q := by
  funext c
  simp only [or, map, preceded, between, pair, andThen]
  rcases l c with ⟨t, h | ⟨a, d⟩ | ⟨e, d⟩⟩
  · simp only [Run.error_bind]
  · rcases hinner : terminated m r d with ⟨u, h | ⟨b, d'⟩ | ⟨e, d'⟩⟩
    · simp [hinner]
    · simp [hinner, Outcome.map]
    · simp [hinner, Outcome.map, Context.failWith]
  · simp [Outcome.map, Context.failWith]

def brackets (inner : Parser σ Nat) : Parser σ Nat :=
  or (map (· + 1) (between (char '(') inner (char ')'))) (just 0)

def ReadsPairs (p : Parser σ Nat) (c : Context σ) (n : Nat) : Prop :=
  ∃ t, p c = ⟨t, .ok (.success n (c.advance (2 * n)))⟩

variable {inner : Parser σ Nat}

theorem nested_readsPairs (hl : c.options.nestLimit ≠ some c.nestLevel)
    (h : inner.ReadsPairs (c.withLevel (c.nestLevel + 1)) n) : (nested inner).ReadsPairs c n := by
  obtain ⟨t, ht⟩ := h
  exact ⟨t, nested_eq_ok.mpr (.inr ⟨hl, _, ht, rfl⟩)⟩

theorem brackets_of_failure {e : ParseError}
    (h : between (char '(') inner (char ')') c = ⟨t, .ok (.failure e d)⟩) :
    (brackets inner).ReadsPairs c 0 := by
  have hmap : map (· + 1) (between (char '(') inner (char ')')) c = ⟨t, .ok (.failure e d)⟩ :=
    map_eq_ok.mpr ⟨_, h, rfl⟩
  refine ⟨t ++ .fallback c.position :: [], ?_⟩
  rw [Nat.mul_zero, Context.advance_zero]
  exact or_eq_ok.mpr (.inr ⟨e, d, t, [], hmap, rfl, rfl⟩)

theorem brackets_of_no_opening (hc : c.remaining? = some text) (h : text.head? ≠ some '(') :
    (brackets inner).ReadsPairs c 0 := by
  have hrefuses : (between (char '(') inner (char ')')).Refuses text := (Refuses.char h).between_left
  obtain ⟨t, e, d, hfailed⟩ := hrefuses hc
  exact brackets_of_failure hfailed

theorem brackets_of_refused {e : ParseError} (hc : c.remaining? = some ('(' :: text))
    (h : inner (c.consume ['(']) = ⟨t, .ok (.failure e d)⟩) : (brackets inner).ReadsPairs c 0 := by
  have hclosed := map_pair_eq_ok (f := Prod.fst) (q := char ')').mpr (.inl ⟨e, d, h, rfl⟩)
  exact brackets_of_failure (between_eq_ok.mpr (.inr ⟨[], '(', _, t, char_self hc, hclosed, rfl⟩))

theorem remaining?_inside (hc : c.remaining? = some ('(' :: text)) (k : Nat) :
    ((c.consume ['(']).advance k).remaining? = some (text.drop k) := by
  rw [Context.remaining?_advance, Context.remaining?_consume_head hc, Option.map_some]

theorem brackets_of_closed (hc : c.remaining? = some ('(' :: text))
    (hinner : inner.ReadsPairs (c.consume ['(']) n) (h : (text.drop (2 * n)).head? = some ')') :
    (brackets inner).ReadsPairs c (n + 1) := by
  obtain ⟨t, ht⟩ := hinner
  obtain ⟨rest, hrest⟩ := List.head?_eq_some_iff.mp h
  have hbehind := remaining?_inside hc (2 * n)
  rw [hrest] at hbehind
  have hcontext : ((c.consume ['(']).advance (2 * n)).consume [')'] = c.advance (2 * (n + 1)) := by
    rw [Context.consume_head_eq_advance hbehind, Context.consume_head_eq_advance hc,
      Context.advance_advance, Context.advance_advance]
    congr 1
    omega
  have hclosed : terminated inner (char ')') (c.consume ['(']) =
      ⟨t ++ [], .ok (.success n (c.advance (2 * (n + 1))))⟩ := by
    rw [← hcontext]
    exact map_pair_eq_ok.mpr (.inr ⟨t, n, _, [], ht, rfl, .inr ⟨')', _, char_self hbehind, rfl⟩⟩)
  have hbetween := between_eq_ok.mpr (.inr ⟨[], '(', _, _, char_self hc, hclosed, rfl⟩)
  exact ⟨_, or_eq_ok.mpr (.inl ⟨n + 1, _, map_eq_ok.mpr ⟨_, hbetween, rfl⟩, rfl⟩)⟩

theorem brackets_of_not_closed (hc : c.remaining? = some ('(' :: text))
    (hinner : inner.ReadsPairs (c.consume ['(']) n) (h : (text.drop (2 * n)).head? ≠ some ')') :
    (brackets inner).ReadsPairs c 0 := by
  obtain ⟨t, ht⟩ := hinner
  obtain ⟨u, e, d, hchar⟩ := Refuses.char h (remaining?_inside hc (2 * n))
  have hopen : terminated inner (char ')') (c.consume ['(']) =
      ⟨t ++ u, .ok (.failure e (c.consume ['(']))⟩ :=
    map_pair_eq_ok.mpr (.inr ⟨t, n, _, u, ht, rfl, .inl ⟨e, d, hchar, rfl⟩⟩)
  exact brackets_of_failure (between_eq_ok.mpr (.inr ⟨[], '(', _, _, char_self hc, hopen, rfl⟩))

theorem brackets_readsPairs {allowed : Prop} [Decidable allowed] (hc : c.remaining? = some ('(' :: text))
    (hsome : ¬ allowed → 0 < openings text)
    (hinner : inner.ReadsPairs (c.consume ['(']) (pairs allowed text)) :
    (brackets inner).ReadsPairs c (pairs allowed ('(' :: text)) := by
  by_cases hclosed : allowed ∧ openings text < closings text
  · rw [pairs_cons_of_closed hclosed]
    exact brackets_of_closed hc hinner ((closes_iff hsome).mpr hclosed)
  · rw [pairs_cons_of_open hclosed]
    exact brackets_of_not_closed hc hinner (mt (closes_iff hsome).mp hclosed)

end Parser

/-! ### All levels -/

namespace Context

variable {c : Context σ} {k : Nat}

/-- To nest `k` times more does not pass the limit, if there is one. -/
def HasRoomFor (c : Context σ) (k : Nat) : Prop :=
  ∀ n, c.options.nestLimit = some n → c.nestLevel + k ≤ n

instance (c : Context σ) (k : Nat) : Decidable (c.HasRoomFor k) :=
  decidable_of_iff (c.options.nestLimit.all (c.nestLevel + k ≤ ·) = true) (by
    unfold HasRoomFor
    cases c.options.nestLimit <;> simp)

theorem WithinLimit.pos_of_no_room (hc : c.WithinLimit) (h : ¬ c.HasRoomFor k) : 0 < k := by
  apply Nat.pos_of_ne_zero
  rintro rfl
  exact h hc

theorem hasRoomFor_deeper : (c.withLevel (c.nestLevel + 1)).HasRoomFor k ↔ c.HasRoomFor (k + 1) := by
  constructor
  · intro h n hn
    have hle := h n hn
    simp only [withLevel] at hle
    omega
  · intro h n hn
    have hle := h n hn
    simp only [withLevel]
    omega

theorem no_room_at_limit (hl : c.options.nestLimit = some c.nestLevel) : ¬ c.HasRoomFor (k + 1) := by
  intro h
  have hle := h _ hl
  omega

end Context

namespace Grammar

variable {c : Context σ} {text : List Char}

theorem unfold_parens (depth : Nat) :
    (unfold parens (depth + 1) () : Parser σ Nat) = Parser.brackets (unfold parens depth ()) := rfl

theorem unfold_limitedParens (depth : Nat) :
    (unfold limitedParens (depth + 1) () : Parser σ Nat) =
      Parser.brackets (Parser.nested (unfold limitedParens depth ())) :=
  Parser.or_preceded_eq_or_between _ _ _ _ _

theorem parens_readsPairs (hc : c.remaining? = some text) :
    (unfold parens (openings text + 1) ()).ReadsPairs c (pairs True text) := by
  induction text generalizing c with
  | nil =>
    rw [unfold_parens]
    exact Parser.brackets_of_no_opening hc (by simp)
  | cons x text ih =>
    rw [unfold_parens]
    by_cases hx : x = '('
    · subst hx
      rw [openings_cons]
      have hinner := ih (Context.remaining?_consume_head hc)
      exact Parser.brackets_readsPairs hc (fun hno => absurd trivial hno) hinner
    · have hhead : (x :: text).head? ≠ some '(' := by simpa using hx
      rw [pairs_of_no_opening hhead]
      exact Parser.brackets_of_no_opening hc hhead

theorem nested_brackets_readsPairs {inner : Parser σ Nat} (hc : c.remaining? = some ('(' :: text))
    (hwithin : c.WithinLimit)
    (hinner : ∀ d : Context σ, d.remaining? = some text → d.WithinLimit →
      inner.ReadsPairs d (pairs (d.HasRoomFor (openings text)) text)) :
    (Parser.brackets (Parser.nested inner)).ReadsPairs c
      (pairs (c.HasRoomFor (openings text + 1)) ('(' :: text)) := by
  let d := c.consume ['(']
  have hd : d.remaining? = some text := Context.remaining?_consume_head hc
  have hdwithin : d.WithinLimit := hwithin
  by_cases hl : d.options.nestLimit = some d.nestLevel
  · have hnone : ¬ c.HasRoomFor (openings text + 1) := Context.no_room_at_limit hl
    rw [pairs_of_not_allowed hnone]
    exact Parser.brackets_of_refused hc (Parser.nested_of_limit hl)
  · have hdeeper := hdwithin.deeper hl
    have hread := hinner (d.withLevel (d.nestLevel + 1)) hd hdeeper
    rw [pairs_congr Context.hasRoomFor_deeper] at hread
    have hsome (hnone : ¬ d.HasRoomFor (openings text + 1)) : 0 < openings text :=
      hdeeper.pos_of_no_room (mt Context.hasRoomFor_deeper.mp hnone)
    exact Parser.brackets_readsPairs hc hsome (Parser.nested_readsPairs hl hread)

theorem limitedParens_readsPairs (hc : c.remaining? = some text) (hwithin : c.WithinLimit) :
    (unfold limitedParens (openings text + 1) ()).ReadsPairs c
      (pairs (c.HasRoomFor (openings text)) text) := by
  induction text generalizing c with
  | nil =>
    rw [unfold_limitedParens, pairs_of_no_opening (by simp)]
    exact Parser.brackets_of_no_opening hc (by simp)
  | cons x text ih =>
    rw [unfold_limitedParens]
    by_cases hx : x = '('
    · subst hx
      rw [openings_cons]
      exact nested_brackets_readsPairs hc hwithin fun d hd hdwithin => ih hd hdwithin
    · have hhead : (x :: text).head? ≠ some '(' := by simpa using hx
      rw [pairs_of_no_opening hhead]
      exact Parser.brackets_of_no_opening hc hhead

theorem run_of_readsPairs {rules : Unit → Grammar Empty (fun _ : Unit => Nat) σ Nat} {depth n : Nat}
    (h : (unfold rules depth ()).ReadsPairs c n) :
    ∃ t, ∀ deeper ≥ depth, run rules deeper (ref ()) c = ⟨t, .ok (.success n (c.advance (2 * n)))⟩ := by
  obtain ⟨t, ht⟩ := h
  have hrun : run rules depth (ref ()) c = ⟨t, .ok (.success n (c.advance (2 * n)))⟩ := ht
  exact ⟨t, fun deeper hle => run_of_le hle hrun⟩

end Grammar

/-- With `k` opening brackets and `m` closing ones behind them, the brackets that may nest without end are
all read if they are all closed, and no limit on nesting counts. Where each of them takes a nest level,
this is so as long as there is room for `k` levels. Otherwise nothing is read. -/
theorem brackets_closed_form {c : Context σ} {text : List Char} (hc : c.remaining? = some text) :
    let k := openings text
    let m := closings text
    let n := if k ≤ m then k else 0
    (∃ t, ∀ depth > k, Grammar.run Grammar.parens depth (.ref ()) c =
      ⟨t, .ok (.success n (c.advance (2 * n)))⟩) ∧
    (c.WithinLimit → c.HasRoomFor k → ∃ t, ∀ depth > k,
      Grammar.run Grammar.limitedParens depth (.ref ()) c =
        ⟨t, .ok (.success n (c.advance (2 * n)))⟩) ∧
    (c.WithinLimit → ¬ c.HasRoomFor k → ∃ t, ∀ depth > k,
      Grammar.run Grammar.limitedParens depth (.ref ()) c = ⟨t, .ok (.success 0 c)⟩) ∧
    (c.advance (2 * n)).nestLevel = c.nestLevel := by
  intro k m n
  refine ⟨?_, ?_, ?_, rfl⟩
  · have hpairs : pairs True text = n := by simp only [pairs, true_and, n, k, m]
    rw [← hpairs]
    exact Grammar.run_of_readsPairs (Grammar.parens_readsPairs hc)
  · intro hwithin hroom
    have hpairs : pairs (c.HasRoomFor k) text = n := by simp only [pairs, hroom, true_and, n, k, m]
    rw [← hpairs]
    exact Grammar.run_of_readsPairs (Grammar.limitedParens_readsPairs hc hwithin)
  · intro hwithin hnone
    obtain ⟨t, ht⟩ := Grammar.run_of_readsPairs (Grammar.limitedParens_readsPairs hc hwithin)
    rw [pairs_of_not_allowed hnone, Nat.mul_zero, Context.advance_zero] at ht
    exact ⟨t, ht⟩

/-- Two pairs, which a limit of two levels has room for and a limit of one has not. -/
theorem brackets_two_pairs :
    let limited (n : Nat) := (Context.start ['(', '(', ')', ')', ')'] ()).withOptions ⟨some n, true⟩
    (∀ n, (limited n).remaining? = some ['(', '(', ')', ')', ')']) ∧
    (limited 1).WithinLimit ∧ ¬ (limited 1).HasRoomFor 2 ∧
    (limited 2).WithinLimit ∧ (limited 2).HasRoomFor 2 ∧
    (∃ t, ∀ depth > 2, Grammar.run Grammar.parens depth (.ref ()) (limited 1) =
      ⟨t, .ok (.success 2 ((limited 1).advance 4))⟩) ∧
    (∃ t, ∀ depth > 2, Grammar.run Grammar.limitedParens depth (.ref ()) (limited 1) =
      ⟨t, .ok (.success 0 (limited 1))⟩) ∧
    ∃ t, ∀ depth > 2, Grammar.run Grammar.limitedParens depth (.ref ()) (limited 2) =
      ⟨t, .ok (.success 2 ((limited 2).advance 4))⟩ := by
  intro limited
  have hremaining (n : Nat) : (limited n).remaining? = some ['(', '(', ')', ')', ')'] := rfl
  obtain ⟨hparens, -, hlimited, -⟩ := brackets_closed_form (hremaining 1)
  obtain ⟨-, hroom, -⟩ := brackets_closed_form (hremaining 2)
  have hwithin₁ : (limited 1).WithinLimit := by decide
  have hwithin₂ : (limited 2).WithinLimit := by decide
  have hnone : ¬ (limited 1).HasRoomFor 2 := by decide
  have hsome : (limited 2).HasRoomFor 2 := by decide
  exact ⟨hremaining, hwithin₁, hnone, hwithin₂, hsome, hparens, hlimited hwithin₁ hnone,
    hroom hwithin₂ hsome⟩

end StreamParser
