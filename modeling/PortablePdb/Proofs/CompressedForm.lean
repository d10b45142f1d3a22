import PortablePdb.Proofs.Compression
import PortablePdb.Proofs.Exactness

/-!
The forms of a compressed integer. Of the packings that have room for a value the writer
takes the smallest, while the reader accepts any. `Value.isShortest_iff` tells the form of
the writer from all others by its length alone, and `Cursor.Passes` says of a reader that
the bytes it read are forms of known values, whichever these are.
-/

namespace PortablePdb

namespace Reader

theorem ahead_of_bytes {n : Nat} {c d : Cursor} {read : ByteArray} (hc : c.Inside)
    (h : bytes n c = .ok read d) :
    ∃ bs, bs.length = n ∧ c.Ahead bs ∧ read = bs.toByteArray ∧ d = c.advance n := by
  by_cases hn : c.pos + n ≤ c.stop
  · obtain ⟨bs, rfl, hbs⟩ := hc.exists_ahead hn
    obtain ⟨rfl, rfl⟩ := (Consumes.bytes bs).eq_of_ok hbs h
    exact ⟨bs, rfl, hbs, rfl, rfl⟩
  · rw [bytes_of_lt (Nat.not_le.1 hn)] at h
    cases h

theorem ahead_of_u8 {c d : Cursor} {b : UInt8} (hc : c.Inside) (h : u8 c = .ok b d) :
    c.Ahead [b] ∧ d = c.advance 1 := by
  obtain ⟨n, d₁, hword, h⟩ := Outcome.run_bind_eq_ok_iff.1 h
  obtain ⟨read, d₂, hbytes, hword⟩ := Outcome.run_bind_eq_ok_iff.1 hword
  obtain ⟨rfl, rfl⟩ := Outcome.run_pure_eq_ok_iff.1 hword
  obtain ⟨rfl, rfl⟩ := Outcome.run_pure_eq_ok_iff.1 h
  obtain ⟨bs, hlength, hbs, rfl, rfl⟩ := ahead_of_bytes hc hbytes
  obtain ⟨first, rfl⟩ := List.length_eq_one_iff.1 hlength
  simpa [leNat] using hbs

end Reader

namespace CompressedInt

open Reader

/-! ### Packings -/

namespace Packing

theorem width_injective {p q : Packing} (h : p.width = q.width) : p = q := by
  cases p <;> cases q <;> first | rfl | cases h

/-- Bytes with the leading bits of a packing are what the value behind these is packed
into. -/
theorem pack_beNat_sub (p : Packing) {bytes : List UInt8} (hlength : bytes.length = p.width)
    (htag : p.tag ≤ beNat bytes) : p.pack (beNat bytes - p.tag) = bytes := by
  rw [pack, Nat.add_sub_cancel' htag, ← hlength, beBytes_beNat]

theorem unrotate_bounds {p : Packing} {raw : Nat} (hraw : raw < p.capacity) :
    -p.half ≤ p.unrotate raw ∧ p.unrotate raw < p.half := by
  cases p <;> simp only [unrotate, half, capacity] at * <;> split <;> omega

theorem rotate_unrotate {p : Packing} {raw : Nat} (hraw : raw < p.capacity) :
    p.rotate (p.unrotate raw) = raw := by
  cases p <;> simp only [rotate, unrotate, half, capacity] at * <;> split <;>
    split <;> omega

end Packing

/-! ### Values and their forms -/

inductive Value
  | unsigned (n : Nat)
  | signed (n : Int)
  deriving DecidableEq

namespace Value

def FitsIn : Value → Packing → Prop
  | unsigned n, p => n < p.capacity
  | signed n, p => -p.half ≤ n ∧ n < p.half

def packed : Value → Packing → List UInt8
  | unsigned n, p => p.pack n
  | signed n, p => p.pack (p.rotate n)

/-- Bytes that hold the value, in whatever packing. -/
def HasForm (v : Value) (form : List UInt8) : Prop :=
  ∃ p, v.FitsIn p ∧ form = v.packed p

/-- Bytes that hold the value, and no fewer bytes do. -/
def IsShortest (v : Value) (form : List UInt8) : Prop :=
  v.HasForm form ∧ ∀ other, v.HasForm other → form.length ≤ other.length

def encode : Value → Except TooLarge (List UInt8)
  | unsigned n => CompressedInt.encode n
  | signed n => encodeSigned n

@[simp] theorem length_packed (v : Value) (p : Packing) :
    (v.packed p).length = p.width := by
  cases v <;> simp [packed]

instance (v : Value) : DecidablePred v.FitsIn :=
  match v with
  | unsigned n => fun p => inferInstanceAs (Decidable (n < p.capacity))
  | signed n => fun p => inferInstanceAs (Decidable (-p.half ≤ n ∧ n < p.half))

theorem encode_eq_ok_iff {v : Value} {bytes : List UInt8} :
    v.encode = .ok bytes ↔
      ∃ p, Packing.smallest? v.FitsIn = some p ∧ bytes = v.packed p := by
  cases v <;> exact packed_eq_ok_iff

theorem encode_isOk {v : Value} {p : Packing} (h : v.FitsIn p) :
    ∃ bytes, v.encode = .ok bytes := by
  obtain ⟨q, hq⟩ := Option.isSome_iff_exists.1 (Packing.smallest?_isSome_iff.2 ⟨p, h⟩)
  exact ⟨_, encode_eq_ok_iff.2 ⟨q, hq, rfl⟩⟩

/-- No smaller packing has room for the value than the one that is written. -/
theorem packed_of_encode {v : Value} {bytes : List UInt8} (h : v.encode = .ok bytes) :
    ∃ p, v.FitsIn p ∧ bytes = v.packed p ∧ ∀ q, v.FitsIn q → p.width ≤ q.width := by
  obtain ⟨p, hp, rfl⟩ := encode_eq_ok_iff.1 h
  exact ⟨p, Packing.room_of_smallest? hp, rfl, fun q => Packing.width_le_of_smallest? hp⟩

/-- Forms of one length are one form. -/
theorem HasForm.eq_of_length {v : Value} {form other : List UInt8} (h : v.HasForm form)
    (hother : v.HasForm other) (hlength : form.length = other.length) : form = other := by
  obtain ⟨p, -, rfl⟩ := h
  obtain ⟨q, -, rfl⟩ := hother
  rw [length_packed, length_packed] at hlength
  rw [Packing.width_injective hlength]

theorem HasForm.ne_nil {v : Value} {form : List UInt8} (h : v.HasForm form) :
    form ≠ [] := by
  obtain ⟨p, -, rfl⟩ := h
  cases v <;> exact p.pack_ne_nil _

/-- What is written is the shortest form, and the only shortest one. -/
theorem isShortest_iff {v : Value} {form : List UInt8} :
    v.IsShortest form ↔ v.encode = .ok form := by
  constructor
  · rintro ⟨hform, hshortest⟩
    obtain ⟨p, hp, rfl⟩ := hform
    obtain ⟨bytes, hbytes⟩ := encode_isOk hp
    obtain ⟨q, hq, rfl, hleast⟩ := packed_of_encode hbytes
    have hle := hshortest (v.packed q) ⟨q, hq, rfl⟩
    have hge := hleast p hp
    rw [length_packed, length_packed] at hle
    rw [hbytes, Packing.width_injective (Nat.le_antisymm hle hge)]
  · intro h
    obtain ⟨p, hp, rfl, hleast⟩ := packed_of_encode h
    refine ⟨⟨p, hp, rfl⟩, ?_⟩
    rintro _ ⟨q, hq, rfl⟩
    simpa using hleast q hq

theorem HasForm.exists_shortest {v : Value} {form : List UInt8} (h : v.HasForm form) :
    ∃ bytes, v.IsShortest bytes := by
  obtain ⟨p, hp, -⟩ := h
  exact (encode_isOk hp).imp fun _ => isShortest_iff.2

end Value

/-! ### Lists of values -/

/-- Forms of all values of a list are no shorter than the shortest ones, and as long only
if they are these. -/
theorem shortest_of_forms {values : List Value} {forms : List (List UInt8)}
    (h : List.Forall₂ Value.HasForm values forms) :
    ∃ shortest, List.Forall₂ Value.IsShortest values shortest ∧
      shortest.flatten.length ≤ forms.flatten.length ∧
      (shortest.flatten.length = forms.flatten.length → shortest = forms) := by
  induction h with
  | nil => exact ⟨[], .nil, Nat.le_refl _, fun _ => rfl⟩
  | @cons v form values forms hform _ ih =>
      obtain ⟨shortest, hshortest, hle, heq⟩ := ih
      obtain ⟨bytes, hbytes⟩ := hform.exists_shortest
      have hfirst := hbytes.2 form hform
      refine ⟨bytes :: shortest, .cons hbytes hshortest, ?_, fun hlength => ?_⟩
      · simp only [List.flatten_cons, List.length_append]
        omega
      · simp only [List.flatten_cons, List.length_append] at hlength
        rw [hbytes.1.eq_of_length hform (by omega), heq (by omega)]

/-- A list has one list of shortest forms. -/
theorem eq_of_shortest {values : List Value} {forms others : List (List UInt8)}
    (h : List.Forall₂ Value.IsShortest values forms)
    (hothers : List.Forall₂ Value.IsShortest values others) :
    forms = others := by
  induction h generalizing others with
  | nil =>
      cases hothers
      rfl
  | cons hform _ ih =>
      cases hothers with
      | cons hother hrest =>
          rw [Value.isShortest_iff] at hform hother
          rw [Except.ok.inj (hform.symm.trans hother), ih hrest]

def encodeAll : List Value → Except TooLarge (List UInt8)
  | [] => return []
  | v :: rest => return (← v.encode) ++ (← encodeAll rest)

theorem encodeAll_singleton (v : Value) : encodeAll [v] = v.encode := by
  simp [encodeAll]

theorem encodeAll_append (values more : List Value) :
    encodeAll (values ++ more) = return (← encodeAll values) ++ (← encodeAll more) := by
  induction values with
  | nil => simp [encodeAll]
  | cons v values ih =>
    simp only [List.cons_append, encodeAll, ih, bind_assoc, pure_bind, List.append_assoc]

theorem encodeAll_eq_of_shortest {values : List Value} {forms : List (List UInt8)}
    (h : List.Forall₂ Value.IsShortest values forms) :
    encodeAll values = .ok forms.flatten := by
  induction h with
  | nil => rfl
  | cons hform _ ih =>
      rw [encodeAll, Value.isShortest_iff.1 hform, ih]
      rfl

/-! ### Readers -/

/-- What is read is what comes next, with its leading bits taken off. -/
theorem ahead_of_readPacked {c d : Cursor} {p : Packing} {raw : Nat} (hc : c.Inside)
    (h : readPacked c = .ok (p, raw) d) :
    raw < p.capacity ∧ c.Ahead (p.pack raw) ∧ d = c.advance p.width := by
  obtain ⟨start, c₀, hstart, h⟩ := Outcome.run_bind_eq_ok_iff.1 h
  obtain ⟨-, rfl⟩ : _ ∧ c = c₀ := EStateM.Result.ok.inj hstart
  obtain ⟨first, c₁, hfirst, h⟩ := Outcome.run_bind_eq_ok_iff.1 h
  obtain ⟨hahead, rfl⟩ := ahead_of_u8 hc hfirst
  have hinside := hc.advance hahead
  split at h
  case isTrue hone =>
    obtain ⟨heq, rfl⟩ := Outcome.run_pure_eq_ok_iff.1 h
    cases heq
    rw [UInt8.lt_iff_toNat_lt] at hone
    have hvalue : beNat [first] = first.toNat := by simp [beNat, leNat]
    have hpack :=
      Packing.one.pack_beNat_sub (show [first].length = 1 from rfl) (Nat.zero_le _)
    rw [hvalue, Packing.tag, Nat.sub_zero] at hpack
    exact ⟨hone, by rwa [hpack], rfl⟩
  case isFalse hone =>
    rw [UInt8.lt_iff_toNat_lt, show (0x80 : UInt8).toNat = 0x80 from rfl] at hone
    split at h
    case isTrue htwo =>
      rw [UInt8.lt_iff_toNat_lt, show (0xC0 : UInt8).toNat = 0xC0 from rfl] at htwo
      obtain ⟨second, c₂, hsecond, h⟩ := Outcome.run_bind_eq_ok_iff.1 h
      obtain ⟨hnext, rfl⟩ := ahead_of_u8 hinside hsecond
      obtain ⟨heq, rfl⟩ := Outcome.run_pure_eq_ok_iff.1 h
      cases heq
      have hvalue := beNat_cons first [second]
      have hlt := beNat_lt [second]
      simp only [List.length_singleton] at hvalue hlt
      have hpack := Packing.two.pack_beNat_sub (show [first, second].length = 2 from rfl)
        (by rw [Packing.tag]; omega)
      refine ⟨by rw [Packing.tag,
        Packing.capacity]; omega, ?_, Cursor.advance_advance _ _ _⟩
      rw [hpack]
      exact hahead.append hnext
    case isFalse htwo =>
      rw [UInt8.lt_iff_toNat_lt, show (0xC0 : UInt8).toNat = 0xC0 from rfl] at htwo
      split at h
      case isFalse => cases h
      case isTrue hfour =>
        rw [UInt8.lt_iff_toNat_lt, show (0xE0 : UInt8).toNat = 0xE0 from rfl] at hfour
        obtain ⟨read, c₂, hrest, h⟩ := Outcome.run_bind_eq_ok_iff.1 h
        obtain ⟨rest, hlength, hnext, rfl, rfl⟩ := ahead_of_bytes hinside hrest
        obtain ⟨heq, rfl⟩ := Outcome.run_pure_eq_ok_iff.1 h
        cases heq
        rw [List.data_toByteArray, List.toList_toArray]
        have hvalue := beNat_cons first rest
        have hlt := beNat_lt rest
        rw [hlength] at hvalue hlt
        have hpack := Packing.four.pack_beNat_sub (show (first :: rest).length =
          4 by rw [List.length_cons, hlength]) (by rw [Packing.tag]; omega)
        refine ⟨by rw [Packing.tag,
          Packing.capacity]; omega, ?_, Cursor.advance_advance _ _ _⟩
        rw [hpack]
        exact hahead.append hnext

end CompressedInt

namespace Cursor

open CompressedInt

/-- Forms of these values come next, and the other cursor stands behind them. -/
def Passes (values : List Value) (c d : Cursor) : Prop :=
  ∃ forms, List.Forall₂ Value.HasForm values forms ∧ c.Ahead forms.flatten ∧
    d = c.advance forms.flatten.length

variable {c d e : Cursor} {values more : List Value}

theorem Passes.nil (hc : c.Inside) : Passes [] c c :=
  ⟨[], .nil, .nil hc.pos_le, rfl⟩

theorem Passes.append (h : Passes values c d) (hmore : Passes more d e) :
    Passes (values ++ more) c e := by
  obtain ⟨forms, hforms, hahead, rfl⟩ := h
  obtain ⟨others, hothers, hnext, rfl⟩ := hmore
  refine ⟨forms ++ others, List.rel_append hforms hothers, ?_, ?_⟩
  · rw [List.flatten_append]
    exact hahead.append hnext
  · rw [List.flatten_append, List.length_append, advance_advance]

/-- Bytes that a buffer starts with, and behind which nothing remains, are all of it. -/
theorem Ahead.eq_of_remaining {data : ByteArray} {bs : List UInt8}
    (h : (ofBytes data).Ahead bs)
    (hend : ((ofBytes data).advance bs.length).remaining = 0) :
    data = bs.toByteArray := by
  rw [remaining_advance, remaining_ofBytes] at hend
  have hstored : bs <+: data.data.toList := h.stored
  rw [hstored.eq_of_length_le (show data.size ≤ _ by omega), toByteArray_toList]

theorem Passes.inside (h : Passes values c d) (hc : c.Inside) : d.Inside := by
  obtain ⟨forms, -, hahead, rfl⟩ := h
  exact hc.advance hahead

/-- A form takes at least one byte. -/
theorem Passes.remaining_lt (h : Passes values c d) (hvalues : values ≠ []) :
    d.remaining < c.remaining := by
  obtain ⟨forms, hforms, hahead, rfl⟩ := h
  have hwithin := hahead.within
  cases hforms with
  | nil => exact absurd rfl hvalues
  | @cons v form values forms hform _ =>
      have hpos := List.length_pos_iff.2 hform.ne_nil
      rw [List.flatten_cons, List.length_append] at hwithin ⊢
      rw [remaining_advance, remaining]
      omega

end Cursor

namespace CompressedInt

open Reader

theorem passes_read {c d : Cursor} {n : Nat} (hc : c.Inside) (h : read c = .ok n d) :
    c.Passes [.unsigned n] d := by
  obtain ⟨⟨p, raw⟩, d', hpacked, h⟩ := Outcome.run_bind_eq_ok_iff.1 h
  obtain ⟨rfl, rfl⟩ := Outcome.run_pure_eq_ok_iff.1 h
  obtain ⟨hraw, hahead, rfl⟩ := ahead_of_readPacked hc hpacked
  exact ⟨[p.pack raw], .cons ⟨p, hraw, rfl⟩ .nil, by simpa using hahead, by simp⟩

theorem passes_readSigned {c d : Cursor} {n : Int} (hc : c.Inside)
    (h : readSigned c = .ok n d) : c.Passes [.signed n] d := by
  obtain ⟨⟨p, raw⟩, d', hpacked, h⟩ := Outcome.run_bind_eq_ok_iff.1 h
  obtain ⟨rfl, rfl⟩ := Outcome.run_pure_eq_ok_iff.1 h
  obtain ⟨hraw, hahead, rfl⟩ := ahead_of_readPacked hc hpacked
  refine ⟨[p.pack raw],
    .cons ⟨p, Packing.unrotate_bounds hraw, ?_⟩ .nil, by simpa using hahead, by simp⟩
  rw [Value.packed, Packing.rotate_unrotate hraw]

theorem consumes_of_hasForm {n : Nat} {form : List UInt8}
    (h : (Value.unsigned n).HasForm form) : Consumes read form n := by
  obtain ⟨p, hp, rfl⟩ := h
  exact (Packing.consumes_readPacked hp).map Prod.snd

/-! ### Repetition -/

section Repetition

-- A step passes values of its own, and what it answers goes with these: `R` goes on to
-- relate all answers to all values.
variable {α σ : Type} {step : σ → Reader (α × σ)} {R : σ → List α → List Value → Prop}
  (hnil : ∀ s, R s [] [])
  (hstep : ∀ {s next : σ} {a : α} {c d : Cursor}, c.Inside → step s c = .ok (a, next) d →
    ∃ values, values ≠ [] ∧ c.Passes values d ∧ ∀ as rest, R next as rest →
      R s (a :: as) (values ++ rest))
include hnil hstep

/-- Every step takes bytes, so that the steps do not run out before the limit. -/
theorem passes_manyFrom {fuel : Nat} :
    ∀ {s : σ} {before result : Array α} {c d : Cursor}, c.Inside → c.remaining ≤ fuel →
      manyFrom step fuel s before c = .ok result d →
      ∃ as values, result = before ++ as.toArray ∧ R s as values ∧ c.Passes values d ∧
        d.remaining = 0 := by
  induction fuel with
  | zero =>
      intro s before result c d hc hfuel h
      obtain ⟨rfl, rfl⟩ := Outcome.run_pure_eq_ok_iff.1 h
      exact ⟨[], [], by simp, hnil s, .nil hc, Nat.le_zero.1 hfuel⟩
  | succ fuel ih =>
      intro s before result c d hc hfuel h
      obtain ⟨more, c', hmore, h⟩ := Outcome.run_bind_eq_ok_iff.1 h
      obtain ⟨hhas, rfl⟩ : c.hasMore = more ∧ c = c' := EStateM.Result.ok.inj hmore
      cases more with
      | false =>
          obtain ⟨rfl, rfl⟩ := Outcome.run_pure_eq_ok_iff.1 h
          have hend : ¬0 < c.remaining := by
            rw [← Cursor.hasMore_iff, hhas]
            decide
          exact ⟨[], [], by simp, hnil s, .nil hc, by omega⟩
      | true =>
          obtain ⟨⟨a, next⟩, c₁, hread, h⟩ := Outcome.run_bind_eq_ok_iff.1 h
          obtain ⟨values, hvalues, hpasses, hgoOn⟩ := hstep hc hread
          have hless := hpasses.remaining_lt hvalues
          obtain ⟨as, rest, rfl, hR, hrest, hend⟩ := ih (hpasses.inside hc) (by omega) h
          exact ⟨a :: as,
            values ++ rest, by simp, hgoOn as rest hR, hpasses.append hrest, hend⟩

theorem passes_untilEnd {s : σ} {as : List α} {c d : Cursor} (hc : c.Inside)
    (h : untilEnd step s c = .ok as d) :
    ∃ values, R s as values ∧ c.Passes values d ∧ d.remaining = 0 := by
  obtain ⟨count, c₁, hcount, h⟩ := Outcome.run_bind_eq_ok_iff.1 h
  obtain ⟨rfl, rfl⟩ : c.remaining = count ∧ c = c₁ := EStateM.Result.ok.inj hcount
  obtain ⟨read, c₂, hmany, h⟩ := Outcome.run_bind_eq_ok_iff.1 h
  obtain ⟨rfl, rfl⟩ := Outcome.run_pure_eq_ok_iff.1 h
  obtain ⟨as, values, rfl, hR, hpasses, hend⟩ :=
    passes_manyFrom hnil hstep hc (Nat.le_refl _) hmany
  exact ⟨values, by simpa using hR, hpasses, hend⟩

end Repetition

end CompressedInt

end PortablePdb
