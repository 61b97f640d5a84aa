import Mathlib.Data.List.Basic

/-!
# MarketData.Lib.Exposition

**The text format in which metrics are scraped**: one line an entry, with the help text and the type
of a metric family in comment lines, and samples `name{label="value"} number`. A label value escapes
the backslash, the quote and the newline. `parse` reads a text as a scraper does; a text is refused
if one of its lines is not understood, or if its last line does not end. Samples with timestamps are
left out.

What a writer has to know is stated for single lines (`line_help`, `line_type`, `line_plain`,
`line_labelled`) and for their join (`parse_intercalate`).
-/

namespace MarketData

namespace Exposition

/-- A sample: the name of its family, its labels and its value as it is written. -/
structure Sample where
  name : String
  labels : List (String × String)
  value : String
  deriving DecidableEq

/-- The series a sample belongs to. -/
def Sample.series (s : Sample) : String × List (String × String) := (s.name, s.labels)

/-- What a line says. -/
inductive Entry
  | help (name text : String)
  | type (name kind : String)
  | sample (s : Sample)
  deriving DecidableEq

/-- The samples among the entries. -/
def Entry.sample? : Entry → Option Sample
  | sample s => some s
  | _ => none

/-! ### Reading a line -/

/-- A character of a metric name or a label name. -/
def isNameChar (c : Char) : Bool := c.isAlphanum || c == '_' || c == ':'

/-- A name, and what stands behind it. -/
def name (cs : List Char) : Option (String × List Char) :=
  match cs.takeWhile isNameChar with
  | [] => none
  | c :: n =>
    if c.isDigit then none else some (String.ofList (c :: n), cs.dropWhile isNameChar)

/-- What an escape stands for. -/
def unescape : Char → Option Char
  | '\\' => some '\\'
  | '"' => some '"'
  | 'n' => some '\n'
  | _ => none

/-- A label value, and what stands behind its closing quote. -/
def quoted : List Char → Option (List Char × List Char)
  | [] => none
  | [c] => if c = '"' then some ([], []) else none
  | c :: c' :: cs =>
    if c = '"' then some ([], c' :: cs)
    else if c = '\\' then
      (unescape c').bind fun x => (quoted cs).map fun r => (x :: r.1, r.2)
    else (quoted (c' :: cs)).map fun r => (c :: r.1, r.2)

/-- At most `n` labels, and what stands behind the closing brace. -/
def labels : Nat → List Char → Option (List (String × String) × List Char)
  | 0, _ => none
  | n + 1, cs =>
    (name cs).bind fun k =>
      match k.2 with
      | '=' :: '"' :: rest =>
        (quoted rest).bind fun v =>
          match v.2 with
          | '}' :: rest => some ([(k.1, String.ofList v.1)], rest)
          | ',' :: rest => (labels n rest).map fun r => ((k.1, String.ofList v.1) :: r.1, r.2)
          | _ => none
      | _ => none

/-- A number, up to the end of the line. -/
def value (cs : List Char) : Option String :=
  if cs = [] ∨ ' ' ∈ cs then none else some (String.ofList cs)

/-- A sample line. -/
def sample (cs : List Char) : Option Sample :=
  (name cs).bind fun n =>
    match n.2 with
    | '{' :: rest =>
      (labels rest.length rest).bind fun l =>
        match l.2 with
        | ' ' :: rest => (value rest).map fun v => ⟨n.1, l.1, v⟩
        | _ => none
    | ' ' :: rest => (value rest).map fun v => ⟨n.1, [], v⟩
    | _ => none

/-- The types of metric families. -/
def kinds : List String := ["counter", "gauge", "histogram", "summary", "untyped"]

/-- A line that is no comment, or one of the two comments that mean something. -/
def line (cs : List Char) : Option (List Entry) :=
  match cs with
  | [] => some []
  | '#' :: ' ' :: 'H' :: 'E' :: 'L' :: 'P' :: ' ' :: rest =>
    (name rest).bind fun n =>
      match n.2 with
      | ' ' :: text => some [.help n.1 (String.ofList text)]
      | _ => none
  | '#' :: ' ' :: 'T' :: 'Y' :: 'P' :: 'E' :: ' ' :: rest =>
    (name rest).bind fun n =>
      match n.2 with
      | ' ' :: kind =>
        if String.ofList kind ∈ kinds then some [.type n.1 (String.ofList kind)] else none
      | _ => none
  | '#' :: _ => some []
  | _ => (sample cs).map fun s => [.sample s]

/-- Read a whole text. -/
def parse (cs : List Char) : Option (List Entry) :=
  if cs.getLast? = some '\n' then ((cs.splitOn '\n').mapM line).map List.flatten else none

/-! ### Writing a line -/

/-- A text that `name` takes whole. -/
def IsName (n : String) : Prop :=
  ∃ c cs, n.toList = c :: cs ∧ c.isDigit = false ∧ ∀ x ∈ c :: cs, isNameChar x = true

instance (n : String) : Decidable (IsName n) :=
  match h : n.toList with
  | [] => isFalse fun ⟨_, _, hn, _⟩ => by simp [h] at hn
  | c :: cs => decidable_of_iff (c.isDigit = false ∧ (c :: cs).all isNameChar = true)
    ⟨fun hc => ⟨c, cs, h, hc.1, List.all_eq_true.mp hc.2⟩, fun ⟨_, _, hn, hd, hall⟩ => by
      obtain ⟨rfl, rfl⟩ := List.cons.inj (h.symm.trans hn)
      exact ⟨hd, List.all_eq_true.mpr hall⟩⟩

/-- A text that `value` takes whole. -/
def IsValue (v : String) : Prop := v.toList ≠ [] ∧ ' ' ∉ v.toList

/-- How a label value is written. -/
def escape (cs : List Char) : List Char :=
  cs.flatMap fun c => if c = '\\' then ['\\', '\\'] else if c = '"' then ['\\', '"'] else [c]

/-- **A name ends where it has to.** -/
theorem name_append {n : String} (hn : IsName n) {c : Char} (hc : isNameChar c = false)
    (cs : List Char) : name (n.toList ++ c :: cs) = some (n, c :: cs) := by
  obtain ⟨d, ds, hlist, hd, hall⟩ := hn
  have htake : (n.toList ++ c :: cs).takeWhile isNameChar = d :: ds := by
    rw [hlist, List.takeWhile_append_of_pos hall, List.takeWhile_cons_of_neg (by simp [hc]),
      List.append_nil]
  have hdrop : (n.toList ++ c :: cs).dropWhile isNameChar = c :: cs := by
    rw [hlist, List.dropWhile_append_of_pos hall, List.dropWhile_cons_of_neg (by simp [hc])]
  unfold name
  rw [htake, hdrop]
  simp only [hd, Bool.false_eq_true, if_false, ← hlist, String.ofList_toList]

/-- **An escaped label value is read back.** -/
theorem quoted_escape (cs rest : List Char) :
    quoted (escape cs ++ '"' :: rest) = some (cs, rest) := by
  induction cs with
  | nil => cases rest <;> simp [escape, quoted]
  | cons c cs ih =>
      have hcons : escape (c :: cs) =
          (if c = '\\' then ['\\', '\\'] else if c = '"' then ['\\', '"'] else [c]) ++ escape cs :=
        List.flatMap_cons
      rw [hcons]
      by_cases hb : c = '\\'
      · subst hb
        simp [quoted, unescape, ih]
      · by_cases hq : c = '"'
        · subst hq
          simp [quoted, unescape, ih]
        · obtain ⟨x, xs, hx⟩ : ∃ x xs, escape cs ++ '"' :: rest = x :: xs :=
            List.exists_cons_of_ne_nil (by simp)
          simp only [if_neg hb, if_neg hq, List.cons_append, List.nil_append]
          rw [hx] at ih ⊢
          simp only [quoted, if_neg hb, if_neg hq, ih, Option.map_some]

theorem value_toList {v : String} (hv : IsValue v) : value v.toList = some v := by
  obtain ⟨hne, hsp⟩ := hv
  rw [value, if_neg (by tauto), String.ofList_toList]

/-- A sample without labels. -/
theorem sample_plain {n v : String} (hn : IsName n) (hv : IsValue v) :
    sample (n.toList ++ ' ' :: v.toList) = some ⟨n, [], v⟩ := by
  rw [sample, name_append hn (by decide), Option.bind_some]
  simp only [value_toList hv, Option.map_some]

/-- A sample with one label. -/
theorem sample_labelled {n k v : String} (hn : IsName n) (hk : IsName k) (hv : IsValue v)
    (l : String) :
    sample (n.toList ++ '{' :: (k.toList ++ '=' :: '"' :: (escape l.toList ++
      '"' :: '}' :: ' ' :: v.toList))) = some ⟨n, [(k, l)], v⟩ := by
  rw [sample, name_append hn (by decide), Option.bind_some]
  generalize hrest : k.toList ++ '=' :: '"' :: (escape l.toList ++ '"' :: '}' :: ' ' :: v.toList) =
    rest
  have hlabels : labels rest.length rest = some ([(k, l)], ' ' :: v.toList) := by
    obtain ⟨m, hm⟩ : ∃ m, rest.length = m + 1 := by
      refine Nat.exists_eq_succ_of_ne_zero ?_
      rw [← hrest]
      simp
    rw [hm, labels, ← hrest, name_append hk (by decide), Option.bind_some]
    simp only [quoted_escape, Option.bind_some, String.ofList_toList]
  simp only [hlabels, Option.bind_some, value_toList hv, Option.map_some]

/-- No sample line is a comment. -/
theorem line_of_sample {c : Char} {cs : List Char} (hc : c ≠ '#') {s : Sample}
    (hs : sample (c :: cs) = some s) : line (c :: cs) = some [.sample s] := by
  unfold line
  split
  · rename_i heq
    cases heq
  · rename_i heq
    exact absurd (List.cons.inj heq).1 hc
  · rename_i heq
    exact absurd (List.cons.inj heq).1 hc
  · rename_i heq
    exact absurd (List.cons.inj heq).1 hc
  · rw [hs, Option.map_some]

theorem IsName.ne_hash {n : String} {c : Char} {cs : List Char} (hn : IsName n)
    (h : n.toList = c :: cs) : c ≠ '#' := by
  obtain ⟨d, ds, hlist, -, hall⟩ := hn
  obtain ⟨rfl, -⟩ := List.cons.inj (h.symm.trans hlist)
  rintro rfl
  exact absurd (hall '#' List.mem_cons_self) (by decide)

theorem line_plain {n v : String} (hn : IsName n) (hv : IsValue v) :
    line (n.toList ++ ' ' :: v.toList) = some [.sample ⟨n, [], v⟩] := by
  have hs := sample_plain hn hv
  obtain ⟨c, cs, hlist, -⟩ := id hn
  have hc := hn.ne_hash hlist
  rw [hlist, List.cons_append] at hs ⊢
  exact line_of_sample hc hs

theorem line_labelled {n k v : String} (hn : IsName n) (hk : IsName k) (hv : IsValue v)
    (l : String) :
    line (n.toList ++ '{' :: (k.toList ++ '=' :: '"' :: (escape l.toList ++
      '"' :: '}' :: ' ' :: v.toList))) = some [.sample ⟨n, [(k, l)], v⟩] := by
  have hs := sample_labelled hn hk hv l
  obtain ⟨c, cs, hlist, -⟩ := id hn
  have hc := hn.ne_hash hlist
  rw [hlist, List.cons_append] at hs ⊢
  exact line_of_sample hc hs

theorem line_help {n : String} (hn : IsName n) (text : String) :
    line ("# HELP ".toList ++ (n.toList ++ ' ' :: text.toList)) = some [.help n text] := by
  show (name (n.toList ++ ' ' :: text.toList)).bind _ = _
  rw [name_append hn (by decide), Option.bind_some]
  simp only [String.ofList_toList]

theorem line_type {n k : String} (hn : IsName n) (hk : k ∈ kinds) :
    line ("# TYPE ".toList ++ (n.toList ++ ' ' :: k.toList)) = some [.type n k] := by
  show (name (n.toList ++ ' ' :: k.toList)).bind _ = _
  rw [name_append hn (by decide), Option.bind_some]
  simp only [String.ofList_toList, if_pos hk]

/-! ### Writing a text -/

section Join

variable {α : Type*} (sep : List α) {ls : List (List α)}

theorem intercalate_concat (hne : ls ≠ []) (l : List α) :
    sep.intercalate (ls ++ [l]) = sep.intercalate ls ++ (sep ++ l) := by
  induction ls with
  | nil => exact absurd rfl hne
  | cons l' ls ih =>
      cases ls with
      | nil => simp [List.intercalate_cons_cons]
      | cons l'' ls =>
          have hih := ih (List.cons_ne_nil _ _)
          rw [List.cons_append, List.intercalate_cons_of_ne_nil (by simp), hih,
            List.intercalate_cons_of_ne_nil (l := l') (List.cons_ne_nil l'' ls)]
          simp only [List.append_assoc]

/-- A join ends with its last piece. -/
theorem getLast?_intercalate_concat (ls : List (List α)) {l : List α} (hl : l ≠ []) :
    (sep.intercalate (ls ++ [l])).getLast? = l.getLast? := by
  cases ls with
  | nil => simp
  | cons l' ls =>
      rw [intercalate_concat sep (List.cons_ne_nil _ _), ← List.append_assoc,
        List.getLast?_append_of_ne_nil _ hl]

end Join

/-- **Lines that are joined are read one by one**, if the last one is empty. -/
theorem parse_intercalate {ls : List (List Char)} (hne : ls ≠ []) (hls : ∀ l ∈ ls, '\n' ∉ l) :
    parse (['\n'].intercalate (ls ++ [[]])) = ((ls ++ [[]]).mapM line).map List.flatten := by
  have hsplit : (['\n'].intercalate (ls ++ [[]])).splitOn '\n' = ls ++ [[]] := by
    refine List.splitOn_intercalate '\n' (fun l hl => ?_) (by simp)
    rcases List.mem_append.mp hl with hl | hl
    · exact hls l hl
    · rw [List.mem_singleton.mp hl]
      exact List.not_mem_nil
  have hlast : (['\n'].intercalate (ls ++ [[]])).getLast? = some '\n' := by
    rw [intercalate_concat _ hne, List.append_nil, List.getLast?_concat]
  rw [parse, if_pos hlast, hsplit]

/-- Lines that say what they should say. -/
theorem mapM_line {ls : List (List Char)} {es : List (List Entry)}
    (h : List.Forall₂ (fun l e => line l = some e) ls es) : ls.mapM line = some es := by
  induction h with
  | nil => rfl
  | cons hl _ ih => rw [List.mapM_cons, hl, ih]; rfl

end Exposition

end MarketData
