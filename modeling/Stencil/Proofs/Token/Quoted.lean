import Stencil.Token.Quoted
import Mathlib.Tactic.IntervalCases

namespace Stencil.Token

-- What may stand after a backslash, with the character that is meant.
def escapes : List (Char × Char) :=
  [('n', '\n'), ('t', '\t'), ('r', '\r'), ('0', '\x00'), ('\\', '\\'), ('\'', '\''), ('"', '"'),
    ('$', '$')]

-- The character is the digit of the value, in lower or upper case.
def HexDigit (c : Char) (value : Nat) : Prop :=
  "0123456789abcdef".toList[value]? = some c ∨ "0123456789ABCDEF".toList[value]? = some c

-- What a string literal is made of: how it is spelled, and the character it stands for. A number
-- names a character only if it is that of a Unicode scalar value.
inductive QuotedItem (quote : Char) : List Char → Char → Prop where
  | plain {c} (hquote : c ≠ quote) (hbackslash : c ≠ '\\') : QuotedItem quote [c] c
  | escape {e c} (h : (e, c) ∈ escapes) : QuotedItem quote ['\\', e] c
  | code {a b c d x i j k l} (ha : HexDigit a i) (hb : HexDigit b j) (hc : HexDigit c k)
      (hd : HexDigit d l) (hx : x.toNat = 16 * (16 * (16 * i + j) + k) + l) :
      QuotedItem quote ['\\', 'u', a, b, c, d] x

-- What is read as such: the first of four digits may also be a plus sign.
inductive ReadItem (quote : Char) : List Char → Char → Prop where
  | item {spelling x} (h : QuotedItem quote spelling x) : ReadItem quote spelling x
  | signed {b c d x j k l} (hb : HexDigit b j) (hc : HexDigit c k) (hd : HexDigit d l)
      (hx : x.toNat = 16 * (16 * j + k) + l) : ReadItem quote ['\\', 'u', '+', b, c, d] x

-- A sequence of items and the characters they stand for.
inductive SpelledBy (item : List Char → Char → Prop) : List Char → List Char → Prop where
  | nil : SpelledBy item [] []
  | cons {spelling x body xs} (h : item spelling x) (hbody : SpelledBy item body xs) :
      SpelledBy item (spelling ++ body) (x :: xs)

section Characters

theorem hexDigit_iff {c : Char} {value : Nat} :
    HexDigit c value ↔ isHexDigit c = true ∧ hexDigitValue c = value := by
  constructor
  · rintro (h | h)
    · obtain ⟨hlt, rfl⟩ := List.getElem?_eq_some_iff.mp h
      change value < 16 at hlt
      interval_cases value <;> exact ⟨rfl, rfl⟩
    · obtain ⟨hlt, rfl⟩ := List.getElem?_eq_some_iff.mp h
      change value < 16 at hlt
      interval_cases value <;> exact ⟨rfl, rfl⟩
  · rintro ⟨h, rfl⟩
    simp only [isHexDigit, Char.isDigit, Bool.or_eq_true, Bool.and_eq_true, decide_eq_true_eq,
      ge_iff_le] at h
    have hself : c = Char.ofNat c.toNat := by simp
    rw [hself]
    rcases h with (⟨hlow, hhigh⟩ | ⟨hlow, hhigh⟩) | ⟨hlow, hhigh⟩
    · have hlow : 48 ≤ c.toNat := hlow
      have hhigh : c.toNat ≤ 57 := hhigh
      interval_cases c.toNat <;> exact .inl rfl
    · have hlow : 97 ≤ c.toNat := hlow
      have hhigh : c.toNat ≤ 102 := hhigh
      interval_cases c.toNat <;> exact .inl rfl
    · have hlow : 65 ≤ c.toNat := hlow
      have hhigh : c.toNat ≤ 70 := hhigh
      interval_cases c.toNat <;> exact .inr rfl

theorem simpleEscape?_eq_some_iff {e c : Char} :
    simpleEscape? e = some c ↔ (e, c) ∈ escapes := by
  constructor
  · intro h
    unfold simpleEscape? at h
    split at h <;> first | (cases h; decide) | cases h
  · intro h
    simp only [escapes, List.mem_cons, List.not_mem_nil, or_false, Prod.mk.injEq] at h
    obtain ⟨rfl, rfl⟩ | ⟨rfl, rfl⟩ | ⟨rfl, rfl⟩ | ⟨rfl, rfl⟩ | ⟨rfl, rfl⟩ | ⟨rfl, rfl⟩ | ⟨rfl, rfl⟩ |
      ⟨rfl, rfl⟩ := h <;> rfl

theorem scalar?_eq_some_iff {n : Nat} {x : Char} : scalar? n = some x ↔ x.toNat = n := by
  by_cases h : n.isValidChar
  · have hsame : (Char.ofNatAux n h).toNat = n := rfl
    rw [scalar?, dif_pos h, Option.some.injEq, ← Char.toNat_inj, hsame, eq_comm]
  · rw [scalar?, dif_neg h]
    refine iff_of_false (by simp) ?_
    rintro rfl
    exact h x.valid

-- The number of four digits, or of three behind a plus sign.
theorem codeUnit?_scalar_iff {quote a b c d x : Char} :
    (codeUnit? a b c d).bind scalar? = some x ↔
      ReadItem quote ['\\', 'u', a, b, c, d] x := by
  constructor
  · intro h
    obtain ⟨n, hunit, hscalar⟩ := Option.bind_eq_some_iff.mp h
    rw [scalar?_eq_some_iff] at hscalar
    unfold codeUnit? at hunit
    split at hunit
    next hdigits =>
      simp only [List.all_cons, List.all_nil, Bool.and_true, Bool.and_eq_true] at hdigits
      obtain ⟨hb, hc, hd⟩ := hdigits
      split at hunit
      next ha =>
        cases hunit
        refine .item (.code (hexDigit_iff.mpr ⟨ha, rfl⟩) (hexDigit_iff.mpr ⟨hb, rfl⟩)
          (hexDigit_iff.mpr ⟨hc, rfl⟩) (hexDigit_iff.mpr ⟨hd, rfl⟩) ?_)
        simpa [ofHexDigits] using hscalar
      next =>
        split at hunit
        next hsign =>
          cases hunit
          subst hsign
          refine .signed (hexDigit_iff.mpr ⟨hb, rfl⟩) (hexDigit_iff.mpr ⟨hc, rfl⟩)
            (hexDigit_iff.mpr ⟨hd, rfl⟩) ?_
          simpa [ofHexDigits] using hscalar
        next => cases hunit
    next => cases hunit
  · intro h
    cases h with
    | item h =>
        cases h with
        | code ha hb hc hd hx =>
            obtain ⟨hexa, rfl⟩ := hexDigit_iff.mp ha
            obtain ⟨hexb, rfl⟩ := hexDigit_iff.mp hb
            obtain ⟨hexc, rfl⟩ := hexDigit_iff.mp hc
            obtain ⟨hexd, rfl⟩ := hexDigit_iff.mp hd
            simp [codeUnit?, hexa, hexb, hexc, hexd, scalar?_eq_some_iff, hx, ofHexDigits]
    | signed hb hc hd hx =>
        obtain ⟨hexb, rfl⟩ := hexDigit_iff.mp hb
        obtain ⟨hexc, rfl⟩ := hexDigit_iff.mp hc
        obtain ⟨hexd, rfl⟩ := hexDigit_iff.mp hd
        have hsign : isHexDigit '+' = false := by decide
        simp [codeUnit?, hsign, hexb, hexc, hexd, scalar?_eq_some_iff, hx, ofHexDigits]

end Characters

section Reading

variable {quote : Char} {opening : Position} {m : Mark} {done cs : List Char}

-- One item is read and put to what was read before it.
theorem scanQuoted_item {spelling : List Char} {x : Char} (h : ReadItem quote spelling x) :
    scanQuoted quote opening (spelling ++ cs) m done =
      scanQuoted quote opening cs (m.past spelling) (x :: done) := by
  have hcode {a b c d : Char} (h : ReadItem quote ['\\', 'u', a, b, c, d] x) :
      scanQuoted quote opening ('\\' :: 'u' :: a :: b :: c :: d :: cs) m done =
        scanQuoted quote opening cs (m.past ['\\', 'u', a, b, c, d]) (x :: done) := by
    rw [scanQuoted, codeUnit?_scalar_iff.mpr h]
  cases h with
  | item h =>
      cases h with
      | plain hquote hbackslash =>
          rw [List.singleton_append, scanQuoted, if_neg hquote]
          · rfl
          all_goals
            intros
            contradiction
      | @escape e _ h =>
          have hu : e ≠ 'u' := by
            rintro rfl
            revert h
            simp [escapes]
          simp only [List.cons_append, List.nil_append]
          rw [scanQuoted, simpleEscape?_eq_some_iff.mpr h]
          all_goals
            intros
            contradiction
      | code ha hb hc hd hx => exact hcode (.item (.code ha hb hc hd hx))
  | signed hb hc hd hx => exact hcode (.signed hb hc hd hx)

theorem scanQuoted_spelled {body xs : List Char} (h : SpelledBy (ReadItem quote) body xs) :
    scanQuoted quote opening (body ++ cs) m done =
      scanQuoted quote opening cs (m.past body) (xs.reverse ++ done) := by
  induction h generalizing m done with
  | nil => rfl
  | cons h _ ih =>
      rw [List.append_assoc, scanQuoted_item h, ih, Mark.past_append, List.reverse_cons,
        List.append_assoc, List.singleton_append]

theorem scanQuoted_close (hquote : quote ≠ '\\') :
    scanQuoted quote opening (quote :: cs) m done =
      (.ok (String.ofList done.reverse), ⟨cs, m.after quote⟩) := by
  rw [scanQuoted, if_pos rfl]
  all_goals
    intros
    contradiction

-- No item begins with this backslash, though there is more to read.
def Malformed (quote : Char) (rest : List Char) : Prop :=
  rest ≠ [] ∧ ∀ spelling x tail, ReadItem quote spelling x → '\\' :: rest ≠ spelling ++ tail

theorem scanQuoted_malformed (h : Malformed quote cs) :
    (scanQuoted quote opening ('\\' :: cs) m done).1 = .error ⟨m.pos, .invalidEscape⟩ := by
  obtain ⟨hmore, hnone⟩ := h
  obtain ⟨e, r, rfl⟩ := List.exists_cons_of_ne_nil hmore
  have hescape : simpleEscape? e = none := by
    rw [Option.eq_none_iff_forall_ne_some]
    intro x hx
    exact hnone _ x r (.item (.escape (simpleEscape?_eq_some_iff.mp hx))) rfl
  by_cases hcode : ∃ a b c d r', e = 'u' ∧ r = a :: b :: c :: d :: r'
  · obtain ⟨a, b, c, d, r', rfl, rfl⟩ := hcode
    have hunit : (codeUnit? a b c d).bind scalar? = none := by
      rw [Option.eq_none_iff_forall_ne_some]
      intro x hx
      exact hnone _ x r' (codeUnit?_scalar_iff.mp hx) rfl
    rw [scanQuoted, hunit]
  · rw [scanQuoted, hescape]
    rintro a b c d r' rfl rfl
    exact hcode ⟨a, b, c, d, r', rfl, rfl⟩

-- How the text behind the opening quote goes on where no item begins.
inductive Ending (quote : Char) : List Char → Prop where
  | closed {rest} : Ending quote (quote :: rest)
  | cut : Ending quote []
  | cutEscape : Ending quote ['\\']
  | malformed {rest} (h : Malformed quote rest) : Ending quote ('\\' :: rest)

-- Text is made of as many items as there are, and an ending.
theorem exists_spelled (quote : Char) (cs : List Char) :
    ∃ body xs tail, cs = body ++ tail ∧ SpelledBy (ReadItem quote) body xs ∧ Ending quote tail := by
  induction hn : cs.length using Nat.strong_induction_on generalizing cs with
  | _ n ih =>
  -- What comes after an item is made of items and an ending already.
  have hitem {spelling rest : List Char} {x : Char} (hcs : cs = spelling ++ rest)
      (h : ReadItem quote spelling x) : ∃ body xs tail, cs = body ++ tail ∧
        SpelledBy (ReadItem quote) body xs ∧ Ending quote tail := by
    have hshorter : rest.length < n := by
      have hne : spelling ≠ [] := by
        rintro rfl
        cases h with
        | item h => cases h
      have hpos := List.length_pos_iff.mpr hne
      rw [← hn, hcs, List.length_append]
      omega
    obtain ⟨body, xs, tail, rfl, hbody, htail⟩ := ih rest.length hshorter rest rfl
    exact ⟨spelling ++ body, x :: xs, tail, by rw [hcs, List.append_assoc], .cons h hbody, htail⟩
  have hending (h : Ending quote cs) : ∃ body xs tail, cs = body ++ tail ∧
      SpelledBy (ReadItem quote) body xs ∧ Ending quote tail := ⟨[], [], cs, rfl, .nil, h⟩
  cases cs with
  | nil => exact hending .cut
  | cons c r =>
      by_cases hquote : c = quote
      · exact hending (hquote ▸ .closed)
      by_cases hbackslash : c = '\\'
      · subst hbackslash
        by_cases hmore : r = []
        · exact hending (hmore ▸ .cutEscape)
        by_cases hitems : ∃ spelling x tail, ReadItem quote spelling x ∧ '\\' :: r = spelling ++ tail
        · obtain ⟨spelling, x, tail, h, hcs⟩ := hitems
          exact hitem hcs h
        · refine hending (.malformed ⟨hmore, fun spelling x tail h hcs => ?_⟩)
          exact hitems ⟨spelling, x, tail, h, hcs⟩
      · exact @hitem [c] r c rfl (.item (.plain hquote hbackslash))

theorem scanString_spelled {body xs : List Char} (h : SpelledBy (ReadItem quote) body xs) :
    scanString quote ⟨quote :: (body ++ cs), m⟩ =
      scanQuoted quote m.pos cs (m.past (quote :: body)) xs.reverse := by
  have hread : scanQuoted quote m.pos (body ++ cs) (m.after quote) [] =
      scanQuoted quote m.pos cs ((m.after quote).past body) (xs.reverse ++ []) :=
    scanQuoted_spelled h
  rwa [List.append_nil] at hread

end Reading

-- A string is read exactly if it is made of items up to its closing quote. Else it is refused: for
-- the first backslash that begins no item, or because the text ends before the string does.
theorem scanString_exact (quote : Char) (hquote : quote = '\'' ∨ quote = '"') (text : List Char)
    (m : Mark) :
    (∀ value stop, scanString quote ⟨quote :: text, m⟩ = (.ok value, stop) ↔
      ∃ body rest, text = body ++ quote :: rest ∧
        SpelledBy (ReadItem quote) body value.toList ∧
        stop = ⟨rest, m.past (quote :: body ++ [quote])⟩) ∧
      ∀ e, (scanString quote ⟨quote :: text, m⟩).1 = .error e ↔
        ∃ body xs rest, text = body ++ rest ∧ SpelledBy (ReadItem quote) body xs ∧
          ((rest = [] ∨ rest = ['\\']) ∧ e = ⟨m.pos, .unterminatedString⟩ ∨
            ∃ after, rest = '\\' :: after ∧ Malformed quote after ∧
              e = ⟨(m.past (quote :: body)).pos, .invalidEscape⟩) := by
  have hbackslash : quote ≠ '\\' := by
    rcases hquote with rfl | rfl
    · decide
    · decide
  constructor
  · intro value stop
    constructor
    · intro h
      obtain ⟨body, xs, tail, rfl, hbody, htail⟩ := exists_spelled quote text
      rw [scanString_spelled hbody] at h
      cases htail with
      | @closed rest =>
          rw [scanQuoted_close hbackslash, List.reverse_reverse] at h
          cases h
          refine ⟨body, rest, rfl, ?_, ?_⟩
          · rwa [String.toList_ofList]
          · rw [Mark.past_append]
            rfl
      | cut => cases h
      | cutEscape => cases h
      | malformed hmalformed =>
          have herror := @scanQuoted_malformed quote m.pos (m.past (quote :: body)) xs.reverse _
            hmalformed
          rw [h] at herror
          cases herror
    · rintro ⟨body, rest, rfl, hbody, rfl⟩
      rw [scanString_spelled hbody, scanQuoted_close hbackslash, List.reverse_reverse,
        String.ofList_toList, Mark.past_append]
      rfl
  · intro e
    constructor
    · intro h
      obtain ⟨body, xs, tail, rfl, hbody, htail⟩ := exists_spelled quote text
      rw [scanString_spelled hbody] at h
      refine ⟨body, xs, tail, rfl, hbody, ?_⟩
      cases htail with
      | closed =>
          rw [scanQuoted_close hbackslash] at h
          cases h
      | cut =>
          cases h
          exact .inl ⟨.inl rfl, rfl⟩
      | cutEscape =>
          cases h
          exact .inl ⟨.inr rfl, rfl⟩
      | malformed hmalformed =>
          rw [scanQuoted_malformed hmalformed] at h
          cases h
          exact .inr ⟨_, rfl, hmalformed, rfl⟩
    · rintro ⟨body, xs, rest, rfl, hbody, hrest⟩
      rw [scanString_spelled hbody]
      rcases hrest with ⟨rfl | rfl, rfl⟩ | ⟨after, rfl, hmalformed, rfl⟩
      · rfl
      · rfl
      · exact scanQuoted_malformed hmalformed

-- Items of all forms between single quotes, and text after them.
theorem scanString_exact_forms :
    ('\'' = '\'' ∨ '\'' = '"') ∧
      SpelledBy (ReadItem '\'') ['é', '"', '\\', '\'', '\\', 'u', '0', '0', '4', '1'] "é\"'A".toList ∧
      (scanString '\'' ⟨['\'', 'é', '"', '\\', '\'', '\\', 'u', '0', '0', '4', '1', '\'', '.'],
        .start⟩) = (.ok "é\"'A", ⟨['.'], ⟨⟨1, 14⟩, false⟩⟩) := by
  have hitems : SpelledBy (ReadItem '\'') ['é', '"', '\\', '\'', '\\', 'u', '0', '0', '4', '1']
      "é\"'A".toList := by
    have hplain {c : Char} (h : c ≠ '\'' ∧ c ≠ '\\') : ReadItem '\'' [c] c :=
      .item (.plain h.1 h.2)
    have hcode : ReadItem '\'' ['\\', 'u', '0', '0', '4', '1'] 'A' :=
      .item (.code (i := 0) (j := 0) (k := 4) (l := 1) (.inl rfl) (.inl rfl) (.inl rfl) (.inl rfl)
        rfl)
    have hescape : ReadItem '\'' ['\\', '\''] '\'' := .item (.escape (by decide))
    exact .cons (hplain (by decide)) (.cons (hplain (by decide)) (.cons hescape (.cons hcode .nil)))
  refine ⟨.inl rfl, hitems, ?_⟩
  exact ((scanString_exact '\'' (.inl rfl) _ .start).1 "é\"'A" _).mpr ⟨_, _, rfl, hitems, rfl⟩

-- The plus sign is no digit, so this is no sequence of items, and yet it is read.
theorem scanString_plus_sign :
    (scanString '"' ⟨['"', '\\', 'u', '+', '0', '4', '1', '"'], .start⟩).1 = .ok "A" ∧
      ¬ ∃ body rest xs, ['\\', 'u', '+', '0', '4', '1', '"'] = body ++ '"' :: rest ∧
        SpelledBy (QuotedItem '"') body xs := by
  refine ⟨rfl, ?_⟩
  rintro ⟨body, rest, xs, hbody, hitems⟩
  cases hitems with
  | nil => cases hbody
  | cons hitem _ =>
      cases hitem with
      | plain _ hbackslash =>
          obtain ⟨rfl, -⟩ := List.cons.inj hbody
          exact hbackslash rfl
      | escape hescape =>
          simp only [List.cons_append, List.cons.injEq] at hbody
          obtain ⟨-, rfl, -⟩ := hbody
          exact absurd hescape (by simp [escapes])
      | code hsign =>
          simp only [List.cons_append, List.cons.injEq] at hbody
          obtain ⟨-, -, rfl, -⟩ := hbody
          exact absurd (hexDigit_iff.mp hsign).1 (by decide)

end Stencil.Token
