import Stencil.Proofs.Source.Line
import Stencil.Proofs.Token.Lookahead

namespace Stencil

namespace Text

theorem encodeChars_cons (c : Char) (cs : List Char) :
    encodeChars (c :: cs) = String.utf8EncodeChar c ++ encodeChars cs := rfl

theorem encodeChars_append (cs ds : List Char) :
    encodeChars (cs ++ ds) = encodeChars cs ++ encodeChars ds := List.flatMap_append

theorem length_encodeChars (cs : List Char) : (encodeChars cs).length = byteLength cs := by
  induction cs with
  | nil => rfl
  | cons c cs ih =>
      rw [encodeChars_cons, List.length_append, String.length_utf8EncodeChar, ih, byteLength]

-- A character is one byte, the same number, or several that are no characters on their own.
theorem encodeChar_cases (c : Char) :
    (c.toNat < 128 ∧ String.utf8EncodeChar c = [UInt8.ofNat c.toNat]) ∨
      (128 ≤ c.toNat ∧ String.utf8EncodeChar c ≠ [] ∧
        ∀ b ∈ String.utf8EncodeChar c, 128 ≤ b.toNat) := by
  have hvalue : c.val.toNat = c.toNat := rfl
  unfold String.utf8EncodeChar
  simp only [hvalue]
  split
  · exact .inl ⟨by omega, rfl⟩
  · refine .inr ⟨by omega, ?_⟩
    split
    · simp [UInt8.toNat_ofNat']
      omega
    · split
      · simp [UInt8.toNat_ofNat']
        omega
      · simp [UInt8.toNat_ofNat']
        omega

-- What a text of one-byte characters begins with can be read off its first byte.
theorem encodeChars_eq_cons {c : Char} (hc : c.toNat < 128) {cs : List Char} {bytes : List UInt8}
    (h : encodeChars cs = UInt8.ofNat c.toNat :: bytes) :
    ∃ r, cs = c :: r ∧ encodeChars r = bytes := by
  cases cs with
  | nil => cases h
  | cons d r =>
      rw [encodeChars_cons] at h
      rcases encodeChar_cases d with ⟨hd, hone⟩ | ⟨-, hsome, hhigh⟩
      · rw [hone] at h
        obtain ⟨hbyte, hrest⟩ := List.cons.inj h
        have hsame : d.toNat = c.toNat := by
          have hnumber := congrArg UInt8.toNat hbyte
          simp only [UInt8.toNat_ofNat'] at hnumber
          omega
        exact ⟨r, by rw [Char.toNat_inj.mp hsame], hrest⟩
      · cases hd : String.utf8EncodeChar d with
        | nil => exact absurd hd hsome
        | cons b more =>
            rw [hd] at h
            obtain ⟨rfl, -⟩ := List.cons.inj h
            have hbyte := hhigh _ (by rw [hd]; exact List.mem_cons_self)
            rw [UInt8.toNat_ofNat'] at hbyte
            omega

theorem dropBytes_append (cs ds : List Char) : dropBytes (byteLength cs) (cs ++ ds) = ds := by
  induction cs with
  | nil => rw [byteLength, List.nil_append, dropBytes]
  | cons c cs ih =>
      have hsize := Char.utf8Size_pos c
      obtain ⟨n, hn⟩ : ∃ n, byteLength (c :: cs) = n + 1 :=
        Nat.exists_eq_add_of_le' (Nat.le_trans hsize (Nat.le_add_right ..))
      have hsum : c.utf8Size + byteLength cs = n + 1 := hn
      have hrest : n + 1 - c.utf8Size = byteLength cs := by omega
      rw [List.cons_append, hn, dropBytes, if_pos (by omega), hrest, ih]

end Text

open Text

namespace Lexer

-- Quotes are one-byte characters.
def Region.Ascii (region : Region Char) : Prop := ∀ q, region = .quoted q → q.toNat < 128

theorem ascii_code : Region.code.Ascii := by
  rintro q ⟨⟩

-- The same region for a look-ahead by bytes.
def Region.bytes : Region Char → Region UInt8
  | .code => .code
  | .lineComment => .lineComment
  | .blockComment => .blockComment
  | .quoted q => .quoted (UInt8.ofNat q.toNat)

-- A byte of a longer character is nothing that the look-ahead minds.
theorem codeEnd_high {region : Region Char} (hregion : region.Ascii) {b : UInt8}
    (hb : 128 ≤ b.toNat) (i : Nat) (r : List UInt8) :
    codeEnd region.bytes i (b :: r) = codeEnd region.bytes (i + 1) r := by
  have hne : ∀ c : UInt8, c.toNat < 128 → b ≠ c := by
    rintro c hc rfl
    omega
  cases region with
  | code =>
      have hquote : ¬ (b = Byte.singleQuote ∨ b = Byte.doubleQuote) := by
        rintro (h | h)
        · exact hne _ (by decide) h
        · exact hne _ (by decide) h
      rw [Region.bytes, codeEnd, if_neg hquote]
      · exact fun _ h => absurd h (hne _ (by decide))
      · exact fun _ h => absurd h (hne _ (by decide))
      · exact fun _ h => absurd h (hne _ (by decide))
  | lineComment =>
      rw [Region.bytes, codeEnd, if_neg (hne _ (by decide))]
      exact fun _ h => absurd h (hne _ (by decide))
  | blockComment =>
      rw [Region.bytes, codeEnd]
      exact fun _ h => absurd h (hne _ (by decide))
  | quoted q =>
      have hq := hregion q rfl
      rw [Region.bytes, codeEnd, if_neg (hne _ (by rw [UInt8.toNat_ofNat']; omega))]
      exact fun _ _ h => absurd h (hne _ (by decide))

theorem codeEnd_highs {region : Region Char} (hregion : region.Ascii) {bytes : List UInt8}
    (hbytes : ∀ b ∈ bytes, 128 ≤ b.toNat) (i : Nat) (r : List UInt8) :
    codeEnd region.bytes i (bytes ++ r) = codeEnd region.bytes (i + bytes.length) r := by
  induction bytes generalizing i with
  | nil => rfl
  | cons b bytes ih =>
      obtain ⟨hb, hbytes⟩ := List.forall_mem_cons.mp hbytes
      rw [List.cons_append, codeEnd_high hregion hb, ih hbytes, List.length_cons, Nat.add_assoc,
        Nat.add_comm 1]

-- A character that is passed over on its own if it is one byte is passed over in any case.
theorem codeEnd_alone {region : Region Char} (hregion : region.Ascii) {c : Char} {r : List Char}
    (h : c.toNat < 128 → ∀ i, codeEnd region.bytes i (UInt8.ofNat c.toNat :: encodeChars r) =
      codeEnd region.bytes (i + 1) (encodeChars r)) (i : Nat) :
    codeEnd region.bytes i (encodeChars (c :: r)) =
      codeEnd region.bytes (i + c.utf8Size) (encodeChars r) := by
  rw [encodeChars_cons, ← String.length_utf8EncodeChar]
  rcases encodeChar_cases c with ⟨hc, hone⟩ | ⟨-, -, hhigh⟩
  · rw [hone]
    exact h hc i
  · exact codeEnd_highs hregion hhigh i _

-- Of an escape the first byte of the character is passed over, which is no quote, and the others
-- are none either.
theorem codeEnd_escape {q : Char} (hq : q.toNat < 128) (i : Nat) (d : Char) (r : List Char) :
    codeEnd (Region.quoted q).bytes i (encodeChars ('\\' :: d :: r)) =
      codeEnd (Region.quoted q).bytes (i + byteLength ['\\', d]) (encodeChars r) := by
  have hregion : (Region.quoted q).Ascii := by
    rintro _ ⟨⟩
    exact hq
  have hlength : i + byteLength ['\\', d] = i + 1 + (String.utf8EncodeChar d).length := by
    rw [String.length_utf8EncodeChar, Nat.add_assoc]
    rfl
  rw [encodeChars_cons, encodeChars_cons, hlength]
  cases hd : String.utf8EncodeChar d with
  | nil =>
      rcases encodeChar_cases d with ⟨-, hone⟩ | ⟨-, hsome, -⟩
      · rw [hone] at hd
        cases hd
      · exact absurd hd hsome
  | cons b bytes =>
      have hbytes : ∀ x ∈ bytes, 128 ≤ x.toNat := by
        rcases encodeChar_cases d with ⟨-, hone⟩ | ⟨-, -, hhigh⟩
        · rw [hone] at hd
          cases hd
          simp
        · exact fun x hx => hhigh x (by rw [hd]; exact List.mem_cons_of_mem _ hx)
      change codeEnd (Region.quoted q).bytes (i + 2) (bytes ++ encodeChars r) = _
      rw [codeEnd_highs hregion hbytes, List.length_cons]
      congr 1
      omega

theorem char_of_byte {a c : Char} (ha : a.toNat < 128) (hc : c.toNat < 128)
    (h : UInt8.ofNat c.toNat = UInt8.ofNat a.toNat) : c = a := by
  have hnumber := congrArg UInt8.toNat h
  simp only [UInt8.toNat_ofNat'] at hnumber
  exact Char.toNat_inj.mp (by omega)

-- Two bytes stand next to each other only where their characters do.
theorem not_pair_of_bytes {a b c : Char} {r : List Char} (ha : a.toNat < 128) (hb : b.toNat < 128)
    (hc : c.toNat < 128) (h : ∀ r', c = a → r = b :: r' → False) (bytes : List UInt8)
    (hfirst : UInt8.ofNat c.toNat = UInt8.ofNat a.toNat)
    (hsecond : encodeChars r = UInt8.ofNat b.toNat :: bytes) : False := by
  obtain ⟨r', rfl, -⟩ := encodeChars_eq_cons hb hsecond
  exact h r' (char_of_byte ha hc hfirst) rfl

-- A character in a string that begins no escape.
theorem ne_backslash {c : Char} {r : List Char} (hlast : c = '\\' → r = [] → False)
    (hescape : ∀ d r', c = '\\' → r = d :: r' → False) : c ≠ '\\' := by
  intro hc
  cases r with
  | nil => exact hlast hc rfl
  | cons d r => exact hescape d r hc rfl

theorem offset_close (i : Nat) (r : List Char) :
    i + byteLength ('%' :: '>' :: r) - byteLength r = i + 2 := by
  have hlength : byteLength ('%' :: '>' :: r) = 2 + byteLength r := byteLength_append ['%', '>'] r
  omega

-- The two scanners agree where they pass over the same text and agree behind it.
theorem agree_behind {region next : Region Char} {w r : List Char} {i : Nat}
    (hpasses : codeEnd region.bytes i (encodeChars (w ++ r)) =
      codeEnd next.bytes (i + byteLength w) (encodeChars r))
    (h : ∀ i, codeEnd next.bytes i (encodeChars r) =
      (codeRest next r).map fun rest => i + byteLength r - byteLength rest) :
    codeEnd region.bytes i (encodeChars (w ++ r)) =
      (codeRest next r).map fun rest => i + byteLength (w ++ r) - byteLength rest := by
  rw [hpasses, h, byteLength_append, Nat.add_assoc]

theorem codeEnd_encodeChars {region : Region Char} (hregion : region.Ascii) (i : Nat)
    (cs : List Char) :
    codeEnd region.bytes i (encodeChars cs) =
      (codeRest region cs).map fun r => i + byteLength cs - byteLength r := by
  fun_induction codeRest region cs generalizing i with
  | case1 region =>
      cases region <;> rfl
  | case2 r => exact (congrArg some (offset_close i r)).symm
  | case3 r ih => exact agree_behind (w := ['/', '/']) rfl (ih (by rintro q ⟨⟩))
  | case4 r ih => exact agree_behind (w := ['/', '*']) rfl (ih (by rintro q ⟨⟩))
  | case5 c r hclose hline hblock hquote ih =>
      rcases hquote with rfl | rfl
      · exact agree_behind (w := ['\'']) rfl (ih (by rintro q ⟨⟩; decide))
      · exact agree_behind (w := ['"']) rfl (ih (by rintro q ⟨⟩; decide))
  | case6 c r hclose hline hblock hquote ih =>
      refine agree_behind (w := [c]) (codeEnd_alone hregion (fun hc j => ?_) i) (ih hregion)
      have hbyte : ¬ (UInt8.ofNat c.toNat = Byte.singleQuote ∨
          UInt8.ofNat c.toNat = Byte.doubleQuote) := by
        rintro (h | h)
        · exact hquote (.inl (char_of_byte (by decide) hc h))
        · exact hquote (.inr (char_of_byte (by decide) hc h))
      rw [Region.bytes, codeEnd, if_neg hbyte]
      · exact not_pair_of_bytes (a := '%') (b := '>') (by decide) (by decide) hc hclose
      · exact not_pair_of_bytes (a := '/') (b := '/') (by decide) (by decide) hc hline
      · exact not_pair_of_bytes (a := '/') (b := '*') (by decide) (by decide) hc hblock
  | case7 r => exact (congrArg some (offset_close i r)).symm
  | case8 r hclose ih => exact agree_behind (w := ['\n']) rfl (ih ascii_code)
  | case9 c r hclose hnewline ih =>
      refine agree_behind (w := [c]) (codeEnd_alone hregion (fun hc j => ?_) i) (ih hregion)
      rw [Region.bytes, codeEnd, if_neg]
      · exact fun h => hnewline (char_of_byte (by decide) hc h)
      · exact not_pair_of_bytes (a := '%') (b := '>') (by decide) (by decide) hc hclose
  | case10 r ih => exact agree_behind (w := ['*', '/']) rfl (ih ascii_code)
  | case11 c r hclose ih =>
      refine agree_behind (w := [c]) (codeEnd_alone hregion (fun hc j => ?_) i) (ih hregion)
      rw [Region.bytes, codeEnd]
      exact not_pair_of_bytes (a := '*') (b := '/') (by decide) (by decide) hc hclose
  | case12 q =>
      change codeEnd (.quoted (UInt8.ofNat q.toNat)) i [Byte.backslash] = none
      rw [codeEnd]
      · split <;> rfl
      · simp
  | case13 q d r ih =>
      exact agree_behind (w := ['\\', d]) (codeEnd_escape (hregion q rfl) i d r) (ih hregion)
  | case14 q r hlast hescape ih =>
      have hq := hregion q rfl
      have hone : String.utf8EncodeChar q = [UInt8.ofNat q.toNat] ∧ q.utf8Size = 1 := by
        rcases encodeChar_cases q with ⟨-, hone⟩ | ⟨hhigh, -⟩
        · exact ⟨hone, by rw [← String.length_utf8EncodeChar, hone]; rfl⟩
        · omega
      refine agree_behind (w := [q]) ?_ (ih ascii_code)
      rw [List.singleton_append, encodeChars_cons, hone.1, byteLength, hone.2]
      change codeEnd (.quoted (UInt8.ofNat q.toNat)) i (UInt8.ofNat q.toNat :: encodeChars r) =
        codeEnd .code (i + 1) (encodeChars r)
      rw [codeEnd, if_pos rfl]
      · exact fun _ _ hfirst _ => ne_backslash hlast hescape (char_of_byte (by decide) hq hfirst)
  | case15 q c r hlast hescape hne ih =>
      refine agree_behind (w := [c]) (codeEnd_alone hregion (fun hc j => ?_) i) (ih hregion)
      rw [Region.bytes, codeEnd, if_neg]
      · exact fun h => hne (char_of_byte (hregion q rfl) hc h)
      · exact fun _ _ hfirst _ => ne_backslash hlast hescape (char_of_byte (by decide) hc hfirst)

-- The end of the block stands right before what is left.
theorem codeRest_close {region : Region Char} {cs r : List Char}
    (h : codeRest region cs = some r) : '%' :: '>' :: r <:+ cs := by
  fun_induction codeRest region cs with
  | case1 => cases h
  | case2 =>
      cases h
      exact List.suffix_refl _
  | case3 r ih => exact (ih h).trans (List.suffix_append ['/', '/'] r)
  | case4 r ih => exact (ih h).trans (List.suffix_append ['/', '*'] r)
  | case7 =>
      cases h
      exact List.suffix_refl _
  | case10 r ih => exact (ih h).trans (List.suffix_append ['*', '/'] r)
  | case12 => cases h
  | case13 q d r ih => exact (ih h).trans (List.suffix_append ['\\', d] r)
  | _ =>
      rename_i ih
      exact (ih h).trans (List.suffix_cons ..)

-- Where the look-ahead by bytes ends, if a text stands before the code.
theorem codeEnd_behind (front cs : List Char) :
    codeEnd .code (byteLength front) ((encodeChars (front ++ cs)).drop (byteLength front)) =
      (codeRest .code cs).map fun r => byteLength (front ++ cs) - byteLength r := by
  rw [encodeChars_append, ← length_encodeChars, List.drop_left, length_encodeChars,
    byteLength_append]
  exact codeEnd_encodeChars ascii_code _ cs

-- What stands behind the block is where the look-ahead by characters ends.
theorem aloneOnLine_eq (r : List Char) (m : Mark) :
    aloneOnLine ⟨'<' :: '%' :: r, m⟩ = (m.blankSoFar &&
      (codeRest .code r).any fun r => (r.takeWhile (· ≠ '\n')).all isBlank) := by
  have hend := codeEnd_behind ['<', '%'] r
  rw [show byteLength ['<', '%'] = 2 from rfl] at hend
  have hwhole : aloneOnLine ⟨['<', '%'] ++ r, m⟩ = (m.blankSoFar &&
      (codeEnd .code 2 ((encodeChars (['<', '%'] ++ r)).drop 2)).any fun i =>
        ((dropBytes i (['<', '%'] ++ r)).takeWhile (· ≠ '\n')).all isBlank) := by
    rw [aloneOnLine]
    cases codeEnd .code 2 ((encodeChars (['<', '%'] ++ r)).drop 2) <;> rfl
  refine hwhole.trans ?_
  rw [hend]
  cases hrest : codeRest .code r with
  | none => rfl
  | some rest =>
      obtain ⟨w, rfl⟩ := (List.suffix_append ['%', '>'] rest).trans (codeRest_close hrest)
      have hoffset : byteLength (['<', '%'] ++ (w ++ rest)) - byteLength rest =
          byteLength (['<', '%'] ++ w) := by
        rw [← List.append_assoc, byteLength_append]
        omega
      have hdrop := dropBytes_append (['<', '%'] ++ w) rest
      rw [List.append_assoc] at hdrop
      simp only [Option.map_some, hoffset]
      exact congrArg (fun cs : List Char => _ && (cs.takeWhile (· ≠ '\n')).all isBlank) hdrop

end Lexer

end Stencil
