import Packwright.Proofs.Json.Places

/-!
# What reads and writes JSON text

The compiler does not read or write JSON text on its own. It is given a codec, and of this it knows no more
than that a mistake is reported at a place of the text and that a string is written without line feeds.

## Main definitions

- `Json.Codec` — what reads JSON text into values, and writes values and strings as JSON text
- `Json.Codec.standard` — the codec of the program
-/

namespace Packwright.Json

/-- What reads JSON text into values, and writes values and strings as JSON text. -/
structure Codec where
  /-- The value of a text, or what is told of the first mistake in it. -/
  decode : String → Except Report Json
  /-- A value as text on several lines. -/
  pretty : Json → String
  /-- A string in quotes. -/
  quote : String → String
  decode_lies : ∀ {text : String} {r : Report}, decode text = .error r → r.LiesIn text
  quote_unbroken : ∀ s : String, '\n' ∉ (quote s).toList

theorem hexDigit_ne_feed (n : Nat) : hexDigit n ≠ '\n' := by
  have hall : ∀ m < 16, (Nat.toDigits 16 m).headD '0' ≠ '\n' := by decide
  exact hall _ (Nat.mod_lt _ (by decide))

/-- No line feed is left in a string with its escapes. -/
theorem not_mem_quote (s : String) : '\n' ∉ (quote s).toList := by
  have hinner : '\n' ∉ s.toList.flatMap escapeChar := by
    intro h
    obtain ⟨c, -, hc⟩ := List.mem_flatMap.mp h
    revert hc
    fun_cases escapeChar c <;> simp_all [eq_comm, (hexDigit_ne_feed _).symm]
  simp [quote, hinner]

namespace Codec

/-- The codec of the program. -/
def standard : Codec where
  decode text := (parse text).mapError Mistake.report
  pretty := Json.pretty
  quote := Json.quote
  decode_lies := by
    intro text r h
    cases hparse : parse text with
    | ok v => rw [hparse] at h; cases h
    | error m =>
      rw [hparse] at h
      rw [← Except.error.inj h]
      exact lies_of_parse hparse
  quote_unbroken := not_mem_quote

instance : Inhabited Codec := ⟨standard⟩

theorem standard_decode_error {text : String} {m : Mistake} (h : parse text = .error m) :
    standard.decode text = .error m.report := by
  show (parse text).mapError Mistake.report = _
  rw [h]
  rfl

end Codec

end Packwright.Json
