import PortablePdb.Proofs.CompressedSequence
import PortablePdb.Proofs.Cursor.Bounds

/-!
What readers of compressed integers accept. The leading bits of the first byte announce a
packing, and a reader fails exactly where they announce none, or where the limit comes
before the last byte that they announce. A value that is read is one that can be written,
in no more bytes than it was read from (`Signedness.read_accepts`).
-/

namespace PortablePdb

namespace Cursor

theorem Ahead.pos_lt_stop {c : Cursor} {b : UInt8} {rest : List UInt8}
    (h : c.Ahead (b :: rest)) : c.pos < c.stop := by
  have := h.within
  rw [List.length_cons] at this
  omega

/-- The bytes that come next are the first ones of any more that do. -/
theorem Ahead.isPrefix {c : Cursor} {bs cs : List UInt8} (hbs : c.Ahead bs)
    (hcs : c.Ahead cs) (hlength : bs.length ≤ cs.length) : bs <+: cs :=
  List.prefix_of_prefix_length_le hbs.stored hcs.stored hlength

end Cursor

namespace CompressedInt

open Reader

variable {c d : Cursor} {first : UInt8} {p : Packing}

/-! ### Leading bits -/

namespace Packing

def announced? (first : UInt8) : Option Packing :=
  if first >>> 7 = 0b0 then some one
  else if first >>> 6 = 0b10 then some two
  else if first >>> 5 = 0b110 then some four
  else none

theorem shiftRight_eq_iff {n : UInt8} (hn : n.toNat < 8) (bits : UInt8) :
    first >>> n = bits ↔ first.toNat / 2 ^ n.toNat = bits.toNat := by
  rw [← UInt8.toNat_inj, UInt8.toNat_shiftRight, Nat.mod_eq_of_lt hn,
    Nat.shiftRight_eq_div_pow]

/-- The first bytes of each packing lie between two bounds. -/
theorem announced?_eq (first : UInt8) :
    announced? first =
      if first < 0x80 then some one else if first < 0xC0 then some two
      else if first < 0xE0 then some four else none := by
  have hlt := first.toNat_lt
  simp only [announced?, shiftRight_eq_iff (show (7 : UInt8).toNat < 8 by decide),
    shiftRight_eq_iff (show (6 : UInt8).toNat < 8 by decide),
    shiftRight_eq_iff (show (5 : UInt8).toNat < 8 by decide),
    UInt8.lt_iff_toNat_lt, UInt8.reduceToNat]
  grind

theorem announced?_eq_none_iff : announced? first = none ↔ first >>> 5 = 0b111 := by
  have hlt := first.toNat_lt
  rw [announced?_eq, shiftRight_eq_iff (by decide)]
  simp only [UInt8.lt_iff_toNat_lt, UInt8.reduceToNat]
  grind

/-- As many bytes as their first one announces are a packed value. -/
theorem exists_pack_of_announced {rest : List UInt8} (h : announced? first = some p)
    (hlength : (first :: rest).length = p.width) :
    ∃ raw < p.capacity, first :: rest = p.pack raw := by
  have hvalue := beNat_cons first rest
  have hrest := beNat_lt rest
  have hbounds : p.tag ≤ beNat (first :: rest) ∧
      beNat (first :: rest) < p.tag + p.capacity := by
    have hfirst := first.toNat_lt
    rw [announced?_eq] at h
    simp only [UInt8.lt_iff_toNat_lt, UInt8.reduceToNat] at h
    rw [List.length_cons] at hlength
    cases p <;> simp only [width, Nat.reduceEqDiff] at hlength <;>
      rw [hlength] at hvalue hrest <;> simp only [tag, capacity] <;> grind
  exact ⟨_, Nat.sub_lt_left_of_lt_add hbounds.1 hbounds.2,
    (p.pack_beNat_sub hlength hbounds.1).symm⟩

end Packing

/-! ### The packed value -/

theorem u8_of_stop_le (h : c.stop ≤ c.pos) : u8 c = .error (.outOfBounds c.pos 1) c := by
  exact return_eq_error_iff.2 (return_eq_error_iff.2 (bytes_of_lt (Nat.lt_succ_of_le h)))

theorem readPacked_of_stop_le (h : c.stop ≤ c.pos) :
    readPacked c = .error (.outOfBounds c.pos 1) c := by
  rw [readPacked, bind_of_ok (show position c = .ok c.pos c from rfl),
    bind_of_error (u8_of_stop_le h)]

/-- Behind the first byte the reader goes by the packing that this byte announces. -/
theorem readPacked_of_ahead (hfirst : c.Ahead [first]) : readPacked c =
    (match Packing.announced? first with
      | some .one => return (.one, first.toNat)
      | some .two => return (.two, beNat [first, ← u8] - Packing.two.tag)
      | some .four =>
        return (.four, beNat (first :: (← bytes 3).data.toList) - Packing.four.tag)
      | none => throw (.invalidCompressedInteger c.pos) : Reader (Packing × Nat))
        (c.advance 1) := by
  rw [readPacked, bind_of_ok (show position c = .ok c.pos c from rfl),
    bind_of_ok (Consumes.u8 first c hfirst), Packing.announced?_eq]
  split
  · rfl
  · split
    · rfl
    · split <;> rfl

theorem readPacked_of_reserved (hfirst : c.Ahead [first])
    (hreserved : Packing.announced? first = none) :
    readPacked c = .error (.invalidCompressedInteger c.pos) (c.advance 1) := by
  rw [readPacked_of_ahead hfirst, hreserved]
  rfl

theorem readPacked_of_cut (hfirst : c.Ahead [first])
    (hp : Packing.announced? first = some p) (hcut : c.stop < c.pos + p.width) :
    readPacked c = .error (.outOfBounds (c.pos + 1) (p.width - 1)) (c.advance 1) := by
  have hpos := hfirst.pos_lt_stop
  rw [readPacked_of_ahead hfirst, hp]
  cases p with
  | one =>
      rw [Packing.width] at hcut
      omega
  | two => exact return_eq_error_iff.2 (u8_of_stop_le (Nat.le_of_lt_succ hcut))
  | four =>
    exact return_eq_error_iff.2 (bytes_of_lt (by rw [Packing.width] at hcut; exact hcut))

/-- If all announced bytes are there, they are read. -/
theorem readPacked_of_whole (hc : c.stop ≤ c.data.size) (hfirst : c.Ahead [first])
    (hp : Packing.announced? first = some p) (hwhole : c.pos + p.width ≤ c.stop) :
    ∃ raw < p.capacity, c.Ahead (p.pack raw) ∧
      readPacked c = .ok (p, raw) (c.advance p.width) := by
  have hinside : c.Inside := ⟨Nat.le_of_lt hfirst.pos_lt_stop, hc⟩
  obtain ⟨bs, hlength, hahead⟩ := hinside.exists_ahead hwhole
  have hpos : 0 < p.width := by cases p <;> decide
  obtain ⟨rest, rfl⟩ := hfirst.isPrefix hahead (by rw [hlength]; exact hpos)
  obtain ⟨raw, hraw, hpack⟩ := Packing.exists_pack_of_announced hp hlength
  rw [show [first] ++ rest = p.pack raw from hpack] at hahead
  refine ⟨raw, hraw, hahead, ?_⟩
  rw [Packing.consumes_readPacked hraw c hahead, Packing.length_pack]

theorem readPacked_eq_error_iff (hc : c.stop ≤ c.data.size) :
    (∃ e d, readPacked c = .error e d) ↔ c.stop ≤ c.pos ∨ ∃ first, c.Ahead [first] ∧
      (first >>> 5 = 0b111 ∨
        ∃ p, Packing.announced? first = some p ∧ c.stop < c.pos + p.width) := by
  constructor
  · rintro ⟨e, d, h⟩
    by_contra! hnone
    obtain ⟨hpos, hnone⟩ := hnone
    have hinside : c.Inside := ⟨Nat.le_of_lt hpos, hc⟩
    obtain ⟨bs, hlength, hahead⟩ := hinside.exists_ahead (n := 1) hpos
    obtain ⟨first, rfl⟩ := List.length_eq_one_iff.1 hlength
    obtain ⟨hreserved, hwhole⟩ := hnone first hahead
    obtain ⟨p, hp⟩ := Option.ne_none_iff_exists'.1 fun hreserved' =>
      hreserved (Packing.announced?_eq_none_iff.1 hreserved')
    obtain ⟨raw, -, -, hread⟩ := readPacked_of_whole hc hahead hp (hwhole p hp)
    rw [hread] at h
    cases h
  · rintro (hpos | ⟨first, hahead, hreserved | ⟨p, hp, hcut⟩⟩)
    · exact ⟨_, _, readPacked_of_stop_le hpos⟩
    · exact ⟨_, _,
        readPacked_of_reserved hahead (Packing.announced?_eq_none_iff.2 hreserved)⟩
    · exact ⟨_, _, readPacked_of_cut hahead hp hcut⟩

/-! ### Values -/

namespace Value

theorem inRange_of_fitsIn {v : Value} (h : v.FitsIn p) : v.InRange := by
  cases v <;> cases p <;> simp only [FitsIn, Packing.capacity, Packing.half] at h <;>
    simp only [InRange] <;> omega

/-- A value against the bytes that it was read from. -/
structure ReadFrom (v : Value) (consumed : List UInt8) : Prop where
  hasForm : v.HasForm consumed
  length_cases : consumed.length = 1 ∨ consumed.length = 2 ∨ consumed.length = 4
  inRange : v.InRange
  written : ∃ bytes, v.encode = .ok bytes ∧ v.IsShortest bytes ∧
    bytes.length ≤ consumed.length ∧ (bytes = consumed ↔ bytes.length = consumed.length)

theorem readFrom_of_hasForm {v : Value} {consumed : List UInt8} (h : v.HasForm consumed) :
    v.ReadFrom consumed := by
  obtain ⟨bytes, hbytes⟩ := h.exists_shortest
  refine ⟨h, ?_, ?_, bytes, isShortest_iff.1 hbytes, hbytes, hbytes.2 consumed h, ?_⟩
  · obtain ⟨p, -, rfl⟩ := h
    rw [length_packed]
    cases p <;> simp [Packing.width]
  · obtain ⟨p, hp, -⟩ := h
    exact inRange_of_fitsIn hp
  · exact ⟨congrArg List.length, hbytes.1.eq_of_length h⟩

end Value

namespace Signedness

theorem read_eq_error_iff {kind : Signedness} {e : FormatError} :
    kind.read c = .error e d ↔ readPacked c = .error e d := by
  cases kind with
  | unsigned => simp only [Signedness.read, CompressedInt.read, return_eq_error_iff]
  | signed => simp only [Signedness.read, readSigned, return_eq_error_iff]

theorem passes_read {kind : Signedness} {v : Value} (hc : c.Inside)
    (h : kind.read c = .ok v d) : v.signedness = kind ∧ c.Passes [v] d := by
  cases kind with
  | unsigned =>
      obtain ⟨n, hread, rfl⟩ := return_eq_ok_iff.1 h
      exact ⟨rfl, CompressedInt.passes_read hc hread⟩
  | signed =>
      obtain ⟨n, hread, rfl⟩ := return_eq_ok_iff.1 h
      exact ⟨rfl, passes_readSigned hc hread⟩

/-- A reader of compressed integers takes any form of a value that can be written, and the
written form is the only one of these as short. It fails exactly if the first byte is not
there, announces nothing or announces more than is there. -/
theorem read_accepts (hc : c.stop ≤ c.data.size) (kind : Signedness) :
    (∀ v d, kind.read c = .ok v d → ∃ consumed, c.Ahead consumed ∧
      d = c.advance consumed.length ∧ v.signedness = kind ∧ v.ReadFrom consumed) ∧
      ((∃ e d, kind.read c = .error e d) ↔ c.stop ≤ c.pos ∨ ∃ first, c.Ahead [first] ∧
        (first >>> 5 = 0b111 ∨
          ∃ p, Packing.announced? first = some p ∧ c.stop < c.pos + p.width)) := by
  refine ⟨fun v d h => ?_, ?_⟩
  · have hpos : c.pos ≤ c.stop := by
      by_contra hpos
      rw [read_eq_error_iff.2 (readPacked_of_stop_le (Nat.le_of_not_le hpos))] at h
      cases h
    obtain ⟨hkind, forms, hforms, hahead, rfl⟩ := passes_read ⟨hpos, hc⟩ h
    obtain ⟨form, _, hform, ⟨⟩, rfl⟩ := List.forall₂_cons_left_iff.1 hforms
    rw [List.flatten_singleton] at hahead ⊢
    exact ⟨form, hahead, rfl, hkind, Value.readFrom_of_hasForm hform⟩
  · simp only [read_eq_error_iff]
    exact readPacked_eq_error_iff hc

/-- A reserved byte, a number in more bytes than it needs, and a number that ends behind
the limit. -/
def lengthySample : Cursor where
  data := [0xE1, 0x80, 0x05, 0xC0, 0x00, 0x00, 0x07].toByteArray
  pos := 0
  limits := [6]

/-- Two bytes that hold one value with a sign and another one without, and three places
where nothing can be read. -/
theorem read_accepts_lengthy :
    (∃ d, Signedness.signed.read (lengthySample.advance 1) = .ok (.signed (-8190)) d ∧
      (Value.signed (-8190)).ReadFrom [0x80, 0x05] ∧
      (Value.signed (-8190)).encode = .ok [0x80, 0x05]) ∧
      (∃ d, Signedness.unsigned.read (lengthySample.advance 1) = .ok (.unsigned 5) d ∧
        (Value.unsigned 5).ReadFrom [0x80, 0x05] ∧
        (Value.unsigned 5).encode = .ok [0x05]) ∧ ∀ pos ∈ [0, 3, 6], ∃ e d,
        Signedness.signed.read (lengthySample.advance pos) = .error e d := by
  have hstop (pos : Nat) :
      (lengthySample.advance pos).stop ≤ (lengthySample.advance pos).data.size := by
    rw [Cursor.stop_advance, Cursor.data_advance]
    decide
  have hahead : (lengthySample.advance 1).Ahead [0x80, 0x05] := ⟨by decide, by decide⟩
  have hread {v : Value}
      {d : Cursor} (h : v.signedness.read (lengthySample.advance 1) = .ok v d)
      (hd : d = (lengthySample.advance 1).advance 2) : v.ReadFrom [0x80, 0x05] := by
    obtain ⟨consumed, hconsumed, rfl, -, hfrom⟩ :=
      (read_accepts (hstop 1) v.signedness).1 v d h
    have hlength : consumed.length = 2 := Nat.add_left_cancel (congrArg Cursor.pos hd)
    rwa [(hahead.isPrefix hconsumed (Nat.le_of_eq hlength.symm)).eq_of_length hlength.symm]
  have hsigned : Signedness.signed.read (lengthySample.advance 1) =
      .ok (.signed (-8190)) ((lengthySample.advance 1).advance 2) :=
    consumes_readValue (v := .signed (-8190)) (by decide) _ hahead
  have hunsigned : Signedness.unsigned.read (lengthySample.advance 1) =
      .ok (.unsigned 5) ((lengthySample.advance 1).advance 2) :=
    (consumes_of_hasForm ⟨.two, show 5 < 0x4000 by decide, by decide⟩).map
      Value.unsigned _ hahead
  refine ⟨⟨_, hsigned, hread hsigned rfl, by decide⟩,
    ⟨_, hunsigned, hread hunsigned rfl, by decide⟩, fun pos hpos => ?_⟩
  refine (read_accepts (hstop pos) .signed).2.2 ?_
  simp only [List.mem_cons, List.not_mem_nil, or_false] at hpos
  rcases hpos with rfl | rfl | rfl
  · exact .inr ⟨0xE1, ⟨by decide, by decide⟩, .inl (by decide)⟩
  · exact .inr ⟨0xC0, ⟨by decide, by decide⟩, .inr ⟨.four, by decide, by decide⟩⟩
  · exact .inl (by decide)

end Signedness

end CompressedInt

end PortablePdb
