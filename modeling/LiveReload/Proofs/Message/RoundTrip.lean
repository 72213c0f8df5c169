import LiveReload.Message.Frame
import LiveReload.Proofs.Message.Json
import LiveReload.Proofs.Message.MessagePack

namespace LiveReload.Message

theorem toJson_injective : Function.Injective toJson := by
  intro one other h
  have hread := ofJson_toJson one
  rw [h, ofJson_toJson] at hread
  exact (Except.ok.inj hread).symm

theorem Fits.eq_of_toMessagePack {one other : Message} (hone : one.Fits) (hother : other.Fits)
    (h : one.toMessagePack = other.toMessagePack) : one = other := by
  have hread := hone.ofMessagePack? []
  rw [h, hother.ofMessagePack?] at hread
  exact (Option.some.inj hread).symm

theorem read_back {message : Message} (h : message.Fits) :
    (∃ text, message.frame .json = .text text ∧ ofJson text = .ok message) ∧
    (∃ bytes, message.frame .messagePack = .binary bytes ∧
      ∀ extra, ofMessagePack? (bytes ++ extra) = some message) ∧
    ∀ format other, other.Fits → other ≠ message → other.frame format ≠ message.frame format := by
  refine ⟨⟨_, rfl, ofJson_toJson message⟩, ⟨_, rfl, h.ofMessagePack?⟩, ?_⟩
  intro format other hother hne hframe
  apply hne
  cases format with
  | json => exact toJson_injective (Frame.text.inj hframe)
  | messagePack => exact hother.eq_of_toMessagePack h (Frame.binary.inj hframe)

-- Quotes, a backslash, a control and a character outside the first plane, with and without a
-- decliner.
theorem read_back_escaped :
    (fullReload "\"a\\b\".js\x01" "declined 😀" (some "é.js")).Fits ∧
    (∃ text, (fullReload "\"a\\b\".js\x01" "declined 😀" (some "é.js")).frame .json = .text text ∧
      ofJson text = .ok (fullReload "\"a\\b\".js\x01" "declined 😀" (some "é.js"))) ∧
    (∃ bytes, (fullReload "\"a\\b\".js\x01" "declined 😀" (some "é.js")).frame .messagePack =
        .binary bytes ∧
      ∀ extra, ofMessagePack? (bytes ++ extra) =
        some (fullReload "\"a\\b\".js\x01" "declined 😀" (some "é.js"))) ∧
    (fullReload "\"a\\b\".js\x01" "declined 😀" none).frame .json ≠
      (fullReload "\"a\\b\".js\x01" "declined 😀" (some "é.js")).frame .json := by
  have h : (fullReload "\"a\\b\".js\x01" "declined 😀" (some "é.js")).Fits :=
    ⟨by decide, by decide⟩
  have hother : (fullReload "\"a\\b\".js\x01" "declined 😀" none).Fits := ⟨by decide, by decide⟩
  obtain ⟨hjson, hpack, hdistinct⟩ := read_back h
  exact ⟨h, hjson, hpack, hdistinct .json _ hother (by decide)⟩

end LiveReload.Message
