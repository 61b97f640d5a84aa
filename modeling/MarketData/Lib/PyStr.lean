/-!
# MarketData.Lib.PyStr

Text as Python has it. A string can hold surrogates, which are code points but no characters:
`json.loads` makes one of each escape from `\ud800` to `\udfff` that stands alone. No encoding of a
string takes them. A string is cut at its surrogates here, and without any it is a `String`.
-/

namespace MarketData

/-- A code point from `0xD800` to `0xDFFF`, by its place among them. -/
abbrev Surrogate := Fin 2048

/-- A Python `str`: the text in front of the first surrogate, then each surrogate with the text
behind it. -/
structure PyStr where
  head : String
  rest : List (Surrogate × String)
  deriving DecidableEq

namespace PyStr

instance : Coe String PyStr := ⟨fun text => ⟨text, []⟩⟩

/-- `str.encode` does not raise. -/
def encodable (s : PyStr) : Bool := s.rest.isEmpty

/-- `s + t`, of a string that is already cut. -/
def appendTo (head : String) : List (Surrogate × String) → PyStr → PyStr
  | [], t => ⟨head ++ t.head, t.rest⟩
  | (c, text) :: rest, t => ⟨head, (c, (appendTo text rest t).head) :: (appendTo text rest t).rest⟩

instance : Append PyStr := ⟨fun s t => appendTo s.head s.rest t⟩

/-- Text in front can be taken off again. -/
theorem coe_append_inj {text : String} {s t : PyStr} :
    (text : PyStr) ++ s = (text : PyStr) ++ t ↔ s = t := by
  constructor
  · intro h
    obtain ⟨hhead, hrest⟩ := PyStr.mk.inj h
    have hlist := congrArg String.toList hhead
    rw [String.toList_append, String.toList_append] at hlist
    have hsame := String.toList_inj.mp (List.append_cancel_left hlist)
    cases s
    cases t
    exact congr (congrArg PyStr.mk hsame) hrest
  · rintro rfl
    rfl

end PyStr

end MarketData
