import PortablePdb.Proofs.Consumption

/-!
Text in UTF-8. Bytes are taken for text exactly if they are those of a string, and then
for that string.
-/

namespace PortablePdb

theorem fromUTF8?_toUTF8 (s : String) : String.fromUTF8? s.toUTF8 = some s := by
  rw [String.fromUTF8?, String.toUTF8_eq_toByteArray, dif_pos s.isValidUTF8]
  rfl

theorem fromUTF8?_eq_some_iff {bytes : ByteArray} {s : String} :
    String.fromUTF8? bytes = some s ↔ bytes = s.toUTF8 := by
  constructor
  · intro h
    rw [String.fromUTF8?] at h
    split at h
    · cases h
      rfl
    · cases h
  · rintro rfl
    exact fromUTF8?_toUTF8 s

namespace Reader

theorem utf8_toUTF8 (s : String) (e : FormatError) (c : Cursor) :
    utf8 s.toUTF8 e c = .ok s c := by
  rw [utf8, fromUTF8?_toUTF8]
  rfl

theorem utf8_of_ne {text : ByteArray} (h : ∀ s : String, text ≠ s.toUTF8)
    (e : FormatError) (c : Cursor) : (utf8 text e : Reader String) c = .error e c := by
  have hnone : String.fromUTF8? text = none := by
    rw [Option.eq_none_iff_forall_ne_some]
    exact fun s hs => h s (fromUTF8?_eq_some_iff.1 hs)
  rw [utf8, hnone]
  rfl

end Reader

end PortablePdb
