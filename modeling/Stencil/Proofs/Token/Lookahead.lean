import Mathlib.Data.List.TakeWhile
import Stencil.Proofs.Token.Progress

namespace Stencil

open Text Cursor Token

namespace Lexer

-- The look-ahead through code by characters: what follows the `%>` that closes the block.
@[simp] def codeRest : Region Char → List Char → Option (List Char)
  | _, [] => none
  | .code, '%' :: '>' :: r => some r
  | .code, '/' :: '/' :: r => codeRest .lineComment r
  | .code, '/' :: '*' :: r => codeRest .blockComment r
  | .code, c :: r => if c = '\'' ∨ c = '"' then codeRest (.quoted c) r else codeRest .code r
  | .lineComment, '%' :: '>' :: r => some r
  | .lineComment, c :: r => if c = '\n' then codeRest .code r else codeRest .lineComment r
  | .blockComment, '*' :: '/' :: r => codeRest .code r
  | .blockComment, _ :: r => codeRest .blockComment r
  | .quoted _, ['\\'] => none
  | .quoted quote, '\\' :: _ :: r => codeRest (.quoted quote) r
  | .quoted quote, c :: r => if c = quote then codeRest .code r else codeRest (.quoted quote) r

-- A character that the look-ahead through code passes over, whatever stands next to it.
def plain (c : Char) : Bool := c ≠ '%' && c ≠ '/' && c ≠ '\'' && c ≠ '"'

theorem plain_of {p : Char → Bool} (h : ['%', '/', '\'', '"'].all (!p ·) = true) {c : Char}
    (hc : p c = true) : plain c = true := by
  simp only [List.all_cons, Bool.and_eq_true, Bool.not_eq_true'] at h
  simp only [plain, Bool.and_eq_true, decide_eq_true_eq]
  refine ⟨⟨⟨?_, ?_⟩, ?_⟩, ?_⟩
  all_goals
    rintro rfl
    simp_all

theorem plain_of_blank {c : Char} (h : isBlank c = true) : plain c = true :=
  plain_of (by decide) h

theorem plain_of_digit {c : Char} (h : c.isDigit = true) : plain c = true :=
  plain_of (by decide) h

theorem plain_of_hexDigit {c : Char} (h : isHexDigit c = true) : plain c = true :=
  plain_of (by decide) h

theorem plain_of_wordCharacter {c : Char} (h : (isLetterOrNumeral c || c = '_') = true) :
    plain c = true :=
  plain_of (p := fun c => isLetterOrNumeral c || c = '_') (by decide) h

theorem codeRest_plain {c : Char} (hc : plain c = true) (r : List Char) :
    codeRest .code (c :: r) = codeRest .code r := by
  simp only [plain, Bool.and_eq_true, decide_eq_true_eq] at hc
  obtain ⟨⟨⟨hpercent, hslash⟩, hsingle⟩, hdouble⟩ := hc
  rw [codeRest, if_neg (by simp [hsingle, hdouble])]
  · rintro r' rfl
    exact absurd rfl hpercent
  · rintro r' rfl
    exact absurd rfl hslash
  · rintro r' rfl
    exact absurd rfl hslash

theorem codeRest_plain_append {cs : List Char} (hcs : ∀ c ∈ cs, plain c = true) (r : List Char) :
    codeRest .code (cs ++ r) = codeRest .code r := by
  induction cs with
  | nil => rfl
  | cons c cs ih =>
      obtain ⟨hc, hcs⟩ := List.forall_mem_cons.mp hcs
      rw [List.cons_append, codeRest_plain hc, ih hcs]

-- The look-ahead finds the same end from both cursors.
def Level (s s' : Cursor) : Prop := codeRest .code s.rest = codeRest .code s'.rest

theorem level_takeWhile {p : Char → Bool} (h : ∀ c, p c = true → plain c = true) (s : Cursor) :
    Level s (s.takeWhile p).2 := by
  have hsplit := s.takeWhile_append p
  have hplain : ∀ c ∈ (s.takeWhile p).1, plain c = true :=
    fun c hc => h c (List.mem_takeWhile_imp hc)
  rw [Level, ← hsplit, codeRest_plain_append hplain]

theorem level_skip {s : Cursor} {n : Nat} (h : ∀ c ∈ s.rest.take n, plain c = true) :
    Level s (s.skip n) := by
  rw [Level, ← List.take_append_drop n s.rest, codeRest_plain_append h]
  rfl

theorem level_fraction {s : Cursor} {found : List Char × Cursor} (h : scanFraction s = some found) :
    Level s found.2 := by
  simp only [scanFraction] at h
  split at h
  · rename_i d r hrest
    split at h
    · cases h
      have hpoint : Level s (s.skip 1) := level_skip (by simp [hrest]; decide)
      exact hpoint.trans (level_takeWhile (fun _ => plain_of_digit) _)
    · cases h
  · cases h

private theorem level_afterSign {negative : Bool} {s : Cursor} {found : Bool × List Char × Cursor}
    (h : (match s.rest with
      | d :: _ => if d.isDigit then some (negative, s.takeWhile Char.isDigit) else none
      | [] => none) = some found) : Level s found.2.2 := by
  split at h
  · split at h
    · cases h
      exact level_takeWhile (fun _ => plain_of_digit) s
    · cases h
  · cases h

theorem level_exponent {s : Cursor} {found : Bool × List Char × Cursor}
    (h : scanExponent s = some found) : Level s found.2.2 := by
  simp only [scanExponent] at h
  split at h
  · rename_i e r hrest
    split at h
    · rename_i hmark
      have he : plain e = true := by
        rcases hmark with rfl | rfl
        · decide
        · decide
      split at h
      · exact (level_skip (by simp [hrest, he]; decide)).trans (level_afterSign h)
      · exact (level_skip (by simp [hrest, he]; decide)).trans (level_afterSign h)
      · exact (level_skip (by simp [hrest, he])).trans (level_afterSign h)
    · cases h
  · cases h

theorem level_decimal (s : Cursor) : Level s (scanDecimal s).2 := by
  have hwhole := level_takeWhile (p := Char.isDigit) (fun _ => plain_of_digit) s
  simp only [scanDecimal]
  generalize (s.takeWhile Char.isDigit).2 = s₁ at hwhole ⊢
  have hfraction : Level s₁ (((scanFraction s₁).map Prod.snd).getD s₁) := by
    cases hf : scanFraction s₁ with
    | none => exact rfl
    | some found => exact level_fraction hf
  generalize ((scanFraction s₁).map Prod.snd).getD s₁ = s₂ at hfraction ⊢
  have hexponent : Level s₂ (((scanExponent s₂).map (·.2.2)).getD s₂) := by
    cases he : scanExponent s₂ with
    | none => exact rfl
    | some found => exact level_exponent he
  split
  · exact hwhole
  · exact hwhole.trans (hfraction.trans hexponent)

theorem level_number (s : Cursor) : Level s (scanNumber s).2 := by
  simp only [scanNumber]
  split
  · rename_i x r hrest
    split
    · rename_i hmark
      have hx : plain x = true := by
        rcases hmark with rfl | rfl
        · decide
        · decide
      have hopening : Level s (s.skip 2) := level_skip (by simp [hrest, hx]; decide)
      exact hopening.trans (level_takeWhile (fun _ => plain_of_hexDigit) _)
    · exact level_decimal s
  · exact level_decimal s

-- The look-ahead leaves out of a string what stands between its quotes.
theorem codeRest_quoted {quote c : Char} (hc : c ≠ '\\') (hquote : c ≠ quote) (r : List Char) :
    codeRest (.quoted quote) (c :: r) = codeRest (.quoted quote) r := by
  rw [codeRest, if_neg hquote]
  · rintro rfl
    exact absurd rfl hc
  · rintro d r' rfl
    exact absurd rfl hc

theorem codeUnit?_digits {a b c d : Char} {n : Nat} (h : codeUnit? a b c d = some n) :
    ∀ x ∈ [a, b, c, d], isHexDigit x = true ∨ x = '+' := by
  simp only [codeUnit?] at h
  split at h
  · rename_i hdigits
    simp only [List.all_cons, List.all_nil, Bool.and_true, Bool.and_eq_true] at hdigits
    obtain ⟨hb, hc, hd⟩ := hdigits
    split at h
    · rename_i ha
      simp [ha, hb, hc, hd]
    · split at h
      · rename_i ha
        simp [ha, hb, hc, hd]
      · cases h
  · cases h

theorem level_quoted {quote : Char} (hquote : quote = '\'' ∨ quote = '"') {opening : Position}
    {cs done : List Char} {m : Mark} {value : String} {s : Cursor}
    (h : scanQuoted quote opening cs m done = (.ok value, s)) :
    codeRest (.quoted quote) cs = codeRest .code s.rest := by
  fun_induction scanQuoted quote opening cs m done with
  | case1 => cases h
  | case2 => cases h
  | case3 a b c d r m done x hx ih =>
      rw [← ih h]
      obtain ⟨n, hunit, -⟩ := Option.bind_eq_some_iff.mp hx
      have hother : ∀ y ∈ [a, b, c, d], y ≠ '\\' ∧ y ≠ quote := by
        intro y hy
        rcases codeUnit?_digits hunit y hy with hhex | rfl
        · constructor
          · rintro rfl
            exact absurd hhex (by decide)
          · rintro rfl
            rcases hquote with rfl | rfl
            · exact absurd hhex (by decide)
            · exact absurd hhex (by decide)
        · constructor
          · decide
          · rcases hquote with rfl | rfl
            · decide
            · decide
      simp only [List.forall_mem_cons] at hother
      obtain ⟨ha, hb, hc, hd, -⟩ := hother
      rw [codeRest, codeRest_quoted ha.1 ha.2, codeRest_quoted hb.1 hb.2, codeRest_quoted hc.1 hc.2,
        codeRest_quoted hd.1 hd.2]
  | case4 => cases h
  | case5 e r m done hunit x hx ih =>
      rw [← ih h, codeRest]
  | case6 => cases h
  | case7 r m done hend hunit hescape =>
      cases h
      have hbackslash : quote ≠ '\\' := by
        rcases hquote with rfl | rfl
        · decide
        · decide
      rw [codeRest, if_pos rfl]
      · rintro rfl
        exact absurd rfl hbackslash
      · rintro d r' rfl
        exact absurd rfl hbackslash
  | case8 c r m done hend hunit hescape hc ih =>
      rw [← ih h, codeRest_quoted ?_ hc]
      rintro rfl
      cases r with
      | nil => exact hend rfl rfl
      | cons e r => exact hescape e r rfl rfl

theorem level_string {quote : Char} (hquote : quote = '\'' ∨ quote = '"') {s s' : Cursor}
    {r : List Char} (hs : s.rest = quote :: r) {value : String}
    (h : scanString quote s = (.ok value, s')) : Level s s' := by
  rw [scanString, hs] at h
  rw [Level, hs, ← level_quoted hquote h]
  rcases hquote with rfl | rfl
  · rw [codeRest]
    · simp
    all_goals simp
  · rw [codeRest]
    · simp
    all_goals simp

-- What the look-ahead is inside of where the lexer passes over this.
def Trivia.region : Trivia → Region Char
  | .blank => .code
  | .lineComment => .lineComment
  | .blockComment _ => .blockComment

theorem level_trivia {trivia : Trivia} {cs : List Char} {m : Mark} {s : Cursor}
    (h : skipTrivia trivia cs m = (.ok (), s)) :
    codeRest trivia.region cs = codeRest .code s.rest := by
  fun_induction skipTrivia trivia cs m with
  | case1 => cases h
  | case2 trivia m hopen =>
      cases h
      cases trivia <;> rfl
  | case3 r m ih =>
      rw [← ih h]
      rfl
  | case4 r m ih =>
      rw [← ih h]
      rfl
  | case5 c r m hline hblock hblank ih =>
      rw [← ih h]
      exact codeRest_plain (plain_of_blank hblank) r
  | case6 =>
      cases h
      rfl
  | case7 =>
      cases h
      rfl
  | case8 r m hclose ih =>
      rw [← ih h]
      rfl
  | case9 c r m hclose hnewline ih =>
      rw [← ih h, Trivia.region, codeRest, if_neg hnewline]
      exact hclose
  | case10 opening r m ih =>
      rw [← ih h]
      rfl
  | case11 opening c r m hclose ih =>
      rw [← ih h, Trivia.region, codeRest]
      exact hclose

-- Behind trivia no comment begins.
theorem skipTrivia_done {trivia : Trivia} {cs : List Char} {m : Mark} {s : Cursor}
    (h : skipTrivia trivia cs m = (.ok (), s)) (r : List Char) :
    s.rest ≠ '/' :: '/' :: r ∧ s.rest ≠ '/' :: '*' :: r := by
  fun_induction skipTrivia trivia cs m with
  | case1 => cases h
  | case2 =>
      cases h
      simp
  | case6 c r' m hline hblock hblank =>
      cases h
      constructor
      · rintro ⟨⟩
        exact hline r rfl rfl
      · rintro ⟨⟩
        exact hblock r rfl rfl
  | case7 =>
      cases h
      simp
  | _ => simp_all

theorem operators_plain :
    ∀ op ∈ Terminal.operators, op.1.all plain = true ∨ op.1 = ['/'] ∨ op.1 = ['%'] := by
  decide

-- A token of code lies behind nothing that the look-ahead would find.
theorem level_codeToken {l l' : Lexer} {c : Char} {r : List Char} {t : Token}
    (hs : l.cursor.rest = c :: r)
    (hcomment : ∀ r, l.cursor.rest ≠ '/' :: '/' :: r ∧ l.cursor.rest ≠ '/' :: '*' :: r)
    (hclose : ∀ r, l.cursor.rest ≠ '%' :: '>' :: r) (h : codeToken l c = (.ok t, l')) :
    Level l.cursor l'.cursor := by
  simp only [codeToken] at h
  split at h
  · have hlevel := level_number l.cursor
    split at h
    · rename_i terminal value s' hscan
      cases h
      rw [hscan] at hlevel
      exact hlevel
    · cases h
  · split at h
    · rename_i hquote
      split at h
      · rename_i value s' hscan
        cases h
        exact level_string hquote hs hscan
      · cases h
    · split at h
      · cases h
        exact level_takeWhile (fun _ => plain_of_wordCharacter) _
      · split at h
        · rename_i spelling terminal hfind
          cases h
          have hbegins : spelling <+: l.cursor.rest := by
            have hfound := List.find?_some hfind
            exact List.isPrefixOf_iff_prefix.mp hfound
          have htaken : l.cursor.rest.take spelling.length = spelling :=
            (List.prefix_iff_eq_take.mp hbegins).symm
          rcases operators_plain _ (List.mem_of_find?_eq_some hfind) with hplain | rfl | rfl
          · exact level_skip (by rw [htaken]; exact List.all_eq_true.mp hplain)
          · obtain ⟨r', hrest⟩ := hbegins
            have hlone : codeRest .code ('/' :: r') = codeRest .code r' := by
              rw [codeRest]
              · simp
              · simp
              · rintro r'' - rfl
                exact (hcomment r'').1 hrest.symm
              · rintro r'' - rfl
                exact (hcomment r'').2 hrest.symm
            simpa [Level, Cursor.skip, ← hrest] using hlone
          · obtain ⟨r', hrest⟩ := hbegins
            have hlone : codeRest .code ('%' :: r') = codeRest .code r' := by
              rw [codeRest]
              · simp
              · rintro r'' - rfl
                exact hclose r'' hrest.symm
              · simp
              · simp
            simpa [Level, Cursor.skip, ← hrest] using hlone
        · cases h

end Lexer

end Stencil
