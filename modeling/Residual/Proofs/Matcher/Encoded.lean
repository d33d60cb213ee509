import Residual.Proofs.Encoding
import Residual.Proofs.Matcher.Builder

/-!
# Matchers of encoded text

Whatever matcher is built for the encoding of a regex, under whatever settings, it decides encoded
texts as the regex decides their characters: `accepts_buildEncoded` for bytes, `accepts_buildText`
for texts, which are stored in UTF-8 (`toList_toUTF8`).
-/

namespace Residual

/-! ## The bytes of a text -/

theorem toList_loop_toByteArray (front back before : List UInt8) :
    ByteArray.toList.loop (front ++ back).toByteArray front.length before =
      before.reverse ++ back := by
  induction back generalizing front before with
  | nil =>
      rw [ByteArray.toList.loop, if_neg (by simp), List.append_nil]
  | cons b back ih =>
      have size : front.length < (front ++ b :: back).toByteArray.size := by simp
      have here : (front ++ b :: back).toByteArray.get! front.length = b := by
        simp [ByteArray.get!, List.data_toByteArray]
      have next := ih (front ++ [b]) (b :: before)
      rw [ByteArray.toList.loop, if_pos size, here]
      simpa using next

theorem toList_toByteArray (bytes : List UInt8) : bytes.toByteArray.toList = bytes :=
  toList_loop_toByteArray [] bytes []

/-- A text is stored in UTF-8. -/
theorem toList_toUTF8 (text : String) :
    text.toUTF8.toList = Encoding.utf8.encode text.toList := by
  rw [String.toUTF8_eq_toByteArray, ← String.utf8Encode_toList, List.utf8Encode, toList_toByteArray]
  rfl

namespace Builder

variable {b : Builder} {r : Regex Char}

/-- A matcher of bytes decides every input, since its alphabet has all bytes. -/
theorem accepts_buildBytes {r : Regex UInt8} {m : Matcher UInt8}
    (built : (b.buildBytes r).result = .ok m) (input : List UInt8) :
    m.accepts input = r.accepts input := by
  apply accepts_build built
  intro byte _
  exact Dfa.mem_allBytes byte

theorem accepts_buildEncoded {e : Encoding} {m : Matcher UInt8}
    (built : (b.buildEncoded r e).result = .ok m) (text : List Char) :
    m.accepts (e.encode text) = r.accepts text := by
  rw [accepts_buildBytes built, r.accepts_encode]

/-- A matcher of texts is one of their bytes in UTF-8. -/
theorem buildEncoded_of_buildText {m : TextMatcher} (built : (b.buildText r).result = .ok m) :
    (b.buildEncoded r .utf8).result = .ok m.bytes := by
  rw [buildText, Logged.result_bind] at built
  cases encoded : (b.buildEncoded r .utf8).result with
  | error e =>
      rw [encoded] at built
      cases built
  | ok bytes =>
      rw [encoded] at built
      obtain rfl := Except.ok.inj built
      rfl

theorem accepts_buildText {m : TextMatcher} (built : (b.buildText r).result = .ok m)
    (text : String) : m.accepts text = r.accepts text.toList := by
  have decides := accepts_buildEncoded (buildEncoded_of_buildText built) text.toList
  rw [← decides, ← toList_toUTF8]
  rfl

/-- Without a limit there is a matcher. -/
theorem buildEncoded_unlimited (unlimited : b.config.stateLimit = none) (r : Regex Char)
    (e : Encoding) : ∃ m, (b.buildEncoded r e).result = .ok m := by
  obtain ⟨d, compiled⟩ := Dfa.compile_unlimited b.config unlimited (r.encode e) Dfa.allBytes
  obtain ⟨m, built, -⟩ := build_of_buildDfa compiled
  exact ⟨m, built⟩

end Builder

end Residual
