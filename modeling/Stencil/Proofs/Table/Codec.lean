import Mathlib.Algebra.Ring.Nat
import Stencil.Table.Codec

namespace Stencil.Table

-- Reading is the inverse of writing: from the front of any bytes it takes what was written for a
-- good value, and it gives up only on bytes that end before such a value is complete.
structure Exact (good : α → Prop) (write : α → List UInt8)
    (read : List UInt8 → Option (α × List UInt8)) : Prop where
  read_write : ∀ {a}, good a → ∀ rest, read (write a ++ rest) = some (a, rest)
  write_read : ∀ {bytes a rest}, read bytes = some (a, rest) → good a ∧ bytes = write a ++ rest
  cut_short : ∀ {bytes}, read bytes = none → ∃ a more, good a ∧ more ≠ [] ∧ write a = bytes ++ more

namespace Exact

variable {good : α → Prop} {write : α → List UInt8} {read : List UInt8 → Option (α × List UInt8)}

theorem exists_good (h : Exact good write read) : ∃ a, good a := by
  cases hread : read [] with
  | none =>
      obtain ⟨a, -, ha, -⟩ := h.cut_short hread
      exact ⟨a, ha⟩
  | some result => exact ⟨result.1, (h.write_read hread).1⟩

-- One value behind another. How the second is read may depend on the first.
theorem andThen {good₂ : α → β → Prop} {write₂ : β → List UInt8}
    {read₂ : α → List UInt8 → Option (β × List UInt8)} (h : Exact good write read)
    (h₂ : ∀ a, good a → Exact (good₂ a) write₂ (read₂ a)) :
    Exact (fun p => good p.1 ∧ good₂ p.1 p.2) (fun p => write p.1 ++ write₂ p.2)
      (fun bytes => (read bytes).bind fun p =>
        (read₂ p.1 p.2).map fun q => ((p.1, q.1), q.2)) where
  read_write := by
    rintro ⟨a, b⟩ ⟨ha, hb⟩ rest
    simp [h.read_write ha, (h₂ a ha).read_write hb]
  write_read := by
    intro bytes p rest hread
    obtain ⟨⟨a, middle⟩, hfirst, hread⟩ := Option.bind_eq_some_iff.mp hread
    obtain ⟨⟨b, last⟩, hsecond, heq⟩ := Option.map_eq_some_iff.mp hread
    obtain ⟨ha, rfl⟩ := h.write_read hfirst
    obtain ⟨hb, rfl⟩ := (h₂ a ha).write_read hsecond
    cases heq
    exact ⟨⟨ha, hb⟩, (List.append_assoc ..).symm⟩
  cut_short := by
    intro bytes hread
    cases hfirst : read bytes with
    | none =>
        obtain ⟨a, more, ha, hmore, hwrite⟩ := h.cut_short hfirst
        obtain ⟨b, hb⟩ := (h₂ a ha).exists_good
        exact ⟨(a, b), more ++ write₂ b, ⟨ha, hb⟩, by simp [hmore], by simp [hwrite]⟩
    | some p =>
        obtain ⟨a, middle⟩ := p
        obtain ⟨ha, rfl⟩ := h.write_read hfirst
        simp only [hfirst, Option.bind_some, Option.map_eq_none_iff] at hread
        obtain ⟨b, more, hb, hmore, hwrite⟩ := (h₂ a ha).cut_short hread
        exact ⟨(a, b), more, ⟨ha, hb⟩, hmore, by simp [hwrite]⟩

-- The same bytes for values of another type.
theorem image {good₂ : β → Prop} {write₂ : β → List UInt8} (h : Exact good write read) (f : α → β)
    (hwrite : ∀ {a}, good a → good₂ (f a) ∧ write₂ (f a) = write a)
    (hgood : ∀ {b}, good₂ b → ∃ a, good a ∧ f a = b) :
    Exact good₂ write₂ (fun bytes => (read bytes).map fun p => (f p.1, p.2)) where
  read_write := by
    intro b hb rest
    obtain ⟨a, ha, rfl⟩ := hgood hb
    simp [(hwrite ha).2, h.read_write ha]
  write_read := by
    intro bytes b rest hread
    obtain ⟨⟨a, last⟩, hfirst, heq⟩ := Option.map_eq_some_iff.mp hread
    obtain ⟨ha, rfl⟩ := h.write_read hfirst
    cases heq
    exact ⟨(hwrite ha).1, by rw [(hwrite ha).2]⟩
  cut_short := by
    intro bytes hread
    obtain ⟨a, more, ha, hmore, heq⟩ := h.cut_short (Option.map_eq_none_iff.mp hread)
    exact ⟨f a, more, (hwrite ha).1, hmore, (hwrite ha).2.trans heq⟩

end Exact

private theorem ofNat_eq_of_mod {a : UInt8} {n : Nat} (h : n % 0x100 = a.toNat) :
    UInt8.ofNat n = a := by
  apply UInt8.toNat_inj.mp
  rw [UInt8.toNat_ofNat']
  exact h

-- Four bytes are always a number.
theorem encodeCount_bytes (a b c d : UInt8) :
    a.toNat + 0x100 * b.toNat + 0x10000 * c.toNat + 0x1000000 * d.toNat < 2 ^ 32 ∧
      encodeCount (a.toNat + 0x100 * b.toNat + 0x10000 * c.toNat + 0x1000000 * d.toNat) =
        [a, b, c, d] := by
  have ha := a.toNat_lt
  have hb := b.toNat_lt
  have hc := c.toNat_lt
  have hd := d.toNat_lt
  refine ⟨by omega, ?_⟩
  rw [encodeCount, ofNat_eq_of_mod (a := a) (by omega), ofNat_eq_of_mod (a := b) (by omega),
    ofNat_eq_of_mod (a := c) (by omega), ofNat_eq_of_mod (a := d) (by omega)]

theorem exact_count : Exact (· < 2 ^ 32) encodeCount decodeCount? where
  read_write := by
    intro n hn rest
    simp only [encodeCount, List.cons_append, List.nil_append, decodeCount?, UInt8.toNat_ofNat',
      Option.some.injEq, Prod.mk.injEq, and_true]
    omega
  write_read := by
    intro bytes n rest hread
    match bytes, hread with
    | a :: b :: c :: d :: rest, rfl =>
        obtain ⟨hlt, hbytes⟩ := encodeCount_bytes a b c d
        exact ⟨hlt, by rw [hbytes]; rfl⟩
  cut_short := by
    intro bytes hread
    match bytes, hread with
    | [], _ => exact ⟨_, _, (encodeCount_bytes 0 0 0 0).1, by simp, (encodeCount_bytes 0 0 0 0).2⟩
    | [a], _ => exact ⟨_, _, (encodeCount_bytes a 0 0 0).1, by simp, (encodeCount_bytes a 0 0 0).2⟩
    | [a, b], _ =>
        exact ⟨_, _, (encodeCount_bytes a b 0 0).1, by simp, (encodeCount_bytes a b 0 0).2⟩
    | [a, b, c], _ =>
        exact ⟨_, _, (encodeCount_bytes a b c 0).1, by simp, (encodeCount_bytes a b c 0).2⟩

-- The value that `decodeValues?` reads first.
def decodeValue? : List UInt8 → Option (Int16 × List UInt8)
  | a :: b :: rest => some ((UInt16.ofNat (a.toNat + 0x100 * b.toNat)).toInt16, rest)
  | _ => none

theorem encodeValue_bytes (a b : UInt8) :
    encodeValue (UInt16.ofNat (a.toNat + 0x100 * b.toNat)).toInt16 = [a, b] := by
  have ha := a.toNat_lt
  have hb := b.toNat_lt
  have hvalue : (UInt16.ofNat (a.toNat + 0x100 * b.toNat)).toNat = a.toNat + 0x100 * b.toNat := by
    rw [UInt16.toNat_ofNat']
    omega
  simp only [encodeValue, UInt16.toUInt16_toInt16, hvalue]
  rw [ofNat_eq_of_mod (a := a) (by omega), ofNat_eq_of_mod (a := b) (by omega)]

theorem exact_value : Exact (fun _ => True) encodeValue decodeValue? where
  read_write := by
    intro v _ rest
    have hlt := v.toUInt16.toNat_lt
    have hbytes : v.toUInt16.toNat % 2 ^ 8 + 0x100 * (v.toUInt16.toNat / 0x100 % 2 ^ 8) =
        v.toUInt16.toNat := by omega
    simp only [encodeValue, List.cons_append, List.nil_append, decodeValue?, UInt8.toNat_ofNat',
      hbytes, UInt16.ofNat_toNat, Int16.toInt16_toUInt16]
  write_read := by
    intro bytes v rest hread
    match bytes, hread with
    | a :: b :: rest, rfl => exact ⟨trivial, by rw [encodeValue_bytes]; rfl⟩
  cut_short := by
    intro bytes hread
    match bytes, hread with
    | [], _ => exact ⟨_, _, trivial, by simp, encodeValue_bytes 0 0⟩
    | [a], _ => exact ⟨_, _, trivial, by simp, encodeValue_bytes a 0⟩

-- So many values, each behind the other.
theorem Exact.counted {good : α → Prop} {write : α → List UInt8}
    {read : List UInt8 → Option (α × List UInt8)}
    {readAll : Nat → List UInt8 → Option (List α × List UInt8)} (h : Exact good write read)
    (hzero : ∀ bytes, readAll 0 bytes = some ([], bytes))
    (hsucc : ∀ n bytes, readAll (n + 1) bytes = (read bytes).bind fun p =>
      (readAll n p.2).map fun q => (p.1 :: q.1, q.2)) (n : Nat) :
    Exact (fun values => values.length = n ∧ ∀ a ∈ values, good a) (·.flatMap write)
      (readAll n) := by
  induction n with
  | zero =>
      refine ⟨?_, ?_, ?_⟩
      · rintro values ⟨hlength, -⟩ rest
        rw [List.length_eq_zero_iff.mp hlength, hzero, List.flatMap_nil, List.nil_append]
      · intro bytes values rest hread
        rw [hzero] at hread
        cases hread
        simp
      · intro bytes hread
        rw [hzero] at hread
        cases hread
  | succ n ih =>
      have hread : readAll (n + 1) = fun bytes => ((read bytes).bind fun p =>
          (readAll n p.2).map fun q => ((p.1, q.1), q.2)).map fun p => (p.1.1 :: p.1.2, p.2) := by
        funext bytes
        rw [hsucc]
        cases read bytes with
        | none => rfl
        | some p => simp [Function.comp_def]
      rw [hread]
      refine (h.andThen fun _ _ => ih).image (fun p => p.1 :: p.2) ?_ ?_
      · rintro ⟨a, values⟩ ⟨ha, hlength, hvalues⟩
        refine ⟨⟨by simp [hlength], ?_⟩, by simp⟩
        intro b hb
        rcases List.mem_cons.mp hb with rfl | hb
        · exact ha
        · exact hvalues b hb
      · rintro values ⟨hlength, hvalues⟩
        obtain ⟨a, rest, rfl⟩ := List.exists_cons_of_length_eq_add_one hlength
        refine ⟨(a, rest), ⟨hvalues a (by simp), by simpa using hlength, ?_⟩, rfl⟩
        intro b hb
        exact hvalues b (by simp [hb])

-- Counts of rows and of values that four bytes can hold.
def Storable (rows : Array Row) : Prop :=
  rows.size < 2 ^ 32 ∧ ∀ row ∈ rows, row.size < 2 ^ 32

theorem exact_values (n : Nat) :
    Exact (fun values => values.length = n ∧ ∀ v ∈ values, True) (·.flatMap encodeValue)
      (decodeValues? n) := by
  refine exact_value.counted (fun bytes => by rw [decodeValues?]) ?_ n
  intro n bytes
  match bytes with
  | [] => rfl
  | [_] => rfl
  | a :: b :: rest => rfl

-- A row behind its length.
def decodeRow? (bytes : List UInt8) : Option (Row × List UInt8) :=
  ((decodeCount? bytes).bind fun p =>
    (decodeValues? p.1 p.2).map fun q => ((p.1, q.1), q.2)).map fun p => (p.1.2.toArray, p.2)

theorem exact_row : Exact (fun row : Row => row.size < 2 ^ 32) encodeRow decodeRow? := by
  refine (exact_count.andThen fun n _ => exact_values n).image (fun p => p.2.toArray) ?_ ?_
  · rintro ⟨n, values⟩ ⟨hn, hlength, -⟩
    simp only at hn hlength
    exact ⟨by simpa [hlength] using hn, by simp [encodeRow, hlength]⟩
  · intro row hrow
    exact ⟨(row.size, row.toList), ⟨hrow, by simp⟩, by simp⟩

theorem exact_rows (n : Nat) :
    Exact (fun rows : List Row => rows.length = n ∧ ∀ row ∈ rows, row.size < 2 ^ 32)
      (·.flatMap encodeRow) (decodeRows? n) := by
  refine exact_row.counted (fun bytes => by rw [decodeRows?]) ?_ n
  intro n bytes
  rw [decodeRows?, decodeRow?]
  cases decodeCount? bytes with
  | none => rfl
  | some p =>
      simp only [Option.bind_eq_bind, Option.bind_some]
      cases decodeValues? p.1 p.2 with
      | none => rfl
      | some q =>
          simp only [Option.bind_some, Option.map_some]
          cases decodeRows? n q.2 <;> rfl

-- Rows behind their number. What is left over is refused by `decode` and not here.
def decodeTable? (bytes : List UInt8) : Option (Array Row × List UInt8) :=
  ((decodeCount? bytes).bind fun p =>
    (decodeRows? p.1 p.2).map fun q => ((p.1, q.1), q.2)).map fun p => (p.1.2.toArray, p.2)

theorem exact_table : Exact Storable encode decodeTable? := by
  refine (exact_count.andThen fun n _ => exact_rows n).image (fun p => p.2.toArray) ?_ ?_
  · rintro ⟨n, rows⟩ ⟨hn, hlength, hrows⟩
    simp only at hn hlength
    exact ⟨⟨by simpa [hlength] using hn, by simpa using hrows⟩, by simp [encode, hlength]⟩
  · rintro rows ⟨hsize, hrows⟩
    exact ⟨(rows.size, rows.toList), ⟨hsize, by simp, by simpa using hrows⟩, by simp⟩

theorem decode_eq (kind : TableKind) (bytes : List UInt8) :
    decode kind bytes = match decodeTable? bytes with
      | none => .error (.malformed kind "unexpected end of data")
      | some (rows, []) => .ok rows
      | some (_, rest) =>
        .error (.malformed kind (toString rest.length ++ " trailing bytes")) := by
  rw [decode, decodeTable?]
  cases decodeCount? bytes with
  | none => rfl
  | some p =>
      simp only [Option.bind_some]
      cases decodeRows? p.1 p.2 with
      | none => rfl
      | some q =>
          obtain ⟨rows, rest⟩ := q
          cases rest <;> rfl

theorem decode_encode (kind : TableKind) {rows : Array Row} (h : Storable rows) :
    decode kind (encode rows) = .ok rows := by
  have hread := exact_table.read_write h []
  rw [List.append_nil] at hread
  rw [decode_eq, hread]

-- How reading bytes as a table can end.
inductive Decoding (kind : TableKind) (bytes : List UInt8) : Except TableError (Array Row) → Prop
  | whole (rows : Array Row) : Storable rows → bytes = encode rows → Decoding kind bytes (.ok rows)
  -- The bytes are the beginning of a table and end within a count, a length or a value.
  | truncated (rows : Array Row) (more : List UInt8) :
      Storable rows → more ≠ [] → encode rows = bytes ++ more →
      Decoding kind bytes (.error (.malformed kind "unexpected end of data"))
  | trailing (rows : Array Row) (rest : List UInt8) :
      Storable rows → rest ≠ [] → bytes = encode rows ++ rest →
      Decoding kind bytes (.error (.malformed kind (toString rest.length ++ " trailing bytes")))

theorem decode_decoding (kind : TableKind) (bytes : List UInt8) :
    Decoding kind bytes (decode kind bytes) := by
  rw [decode_eq]
  cases hread : decodeTable? bytes with
  | none =>
      obtain ⟨rows, more, hrows, hmore, heq⟩ := exact_table.cut_short hread
      exact .truncated rows more hrows hmore heq
  | some p =>
      obtain ⟨rows, rest⟩ := p
      obtain ⟨hrows, heq⟩ := exact_table.write_read hread
      cases rest with
      | nil => exact .whole rows hrows (by simpa using heq)
      | cons byte rest => exact .trailing rows (byte :: rest) hrows (by simp) heq

end Stencil.Table
