/-
Line feeds in a text are line feeds in its bytes.

The bytes of a text are those of its characters, one after another.  A character
below 128 is one byte, its own number, and every byte of any other character has
its highest bit set.  So the byte of a line feed stands for a line feed and for
nothing else, and bytes can be cut into lines before they are read as texts.
-/
import BytecodeIR.Text.Encoding

namespace BytecodeIR.Text

variable {text : String}

theorem encode_eq_flatMap (text : String) :
    encode text = text.toList.flatMap String.utf8EncodeChar := by
  unfold encode
  rw [String.toUTF8_eq_toByteArray, ← String.utf8Encode_toList, List.utf8Encode.eq_1,
    List.toList_data_toByteArray]

@[simp] theorem encode_append (s t : String) : encode (s ++ t) = encode s ++ encode t := by
  simp only [encode_eq_flatMap, String.toList_append, List.flatMap_append]

theorem feed_eq_ofNat {n : Nat} (h : n < 256) : (0x0a : UInt8) = .ofNat n ↔ n = 10 := by
  rw [← UInt8.toNat_inj, UInt8.toNat_ofNat_of_lt' h, eq_comm]
  rfl

theorem feed_mem_utf8EncodeChar {c : Char} : 0x0a ∈ String.utf8EncodeChar c ↔ c = '\n' := by
  have hfeed : c = '\n' ↔ c.val.toNat = 10 := by
    rw [← Char.toNat_inj]
    rfl
  rw [hfeed, String.utf8EncodeChar.eq_1]
  split
  · rw [List.mem_singleton, feed_eq_ofNat (by omega)]
  -- The bytes of the longer forms are 128 and more.
  split
  · simp only [List.mem_cons, List.not_mem_nil, or_false]
    rw [feed_eq_ofNat (by omega), feed_eq_ofNat (by omega)]
    omega
  split
  · simp only [List.mem_cons, List.not_mem_nil, or_false]
    rw [feed_eq_ofNat (by omega), feed_eq_ofNat (by omega), feed_eq_ofNat (by omega)]
    omega
  · simp only [List.mem_cons, List.not_mem_nil, or_false]
    rw [feed_eq_ofNat (by omega), feed_eq_ofNat (by omega), feed_eq_ofNat (by omega),
      feed_eq_ofNat (by omega)]
    omega

/-- **A text has the byte of a line feed exactly if it has a line feed.** -/
theorem feed_mem_encode : 0x0a ∈ encode text ↔ '\n' ∈ text.toList := by
  rw [encode_eq_flatMap, List.mem_flatMap]
  constructor
  · rintro ⟨c, hc, hfeed⟩
    rwa [← feed_mem_utf8EncodeChar.mp hfeed]
  · intro h
    exact ⟨_, h, feed_mem_utf8EncodeChar.mpr rfl⟩

end BytecodeIR.Text
