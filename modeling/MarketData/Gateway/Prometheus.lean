import MarketData.Gateway.Connection
import MarketData.Gateway.Latency
import MarketData.Lib.Decimal
import MarketData.Lib.Exposition

/-!
# MarketData.Gateway.Prometheus

`_prometheus_metrics_text` of `src/gateway/gateway.py` and its helpers.

**A scraper reads what the gateway has counted** (`scrape_exact`). In every reachable state the text
parses, each sample in it is one of a registered session or of the whole gateway and is there, each
has a type, and no series is there twice, which the format forbids. A label is escaped except for
the newline, so client ids must have none; those of the gateway are hexadecimal.

The clock enters as the seconds since the start. How a float is written is left open, as far as it
is written without white space.
-/

namespace MarketData.Gateway

open Exposition (Sample Entry IsName IsValue)

/-! ### The text -/

/-- `str.replace` of one character. -/
def replaceChar (cs : List Char) (old : Char) (new : List Char) : List Char :=
  cs.flatMap fun c => if c = old then new else [c]

/-- `_client_label`. -/
def clientLabel (clientId : String) : String :=
  let escaped := replaceChar (replaceChar clientId.toList '\\' ['\\', '\\']) '"' ['\\', '"']
  "client_id=\"" ++ String.ofList escaped ++ "\""

/-- `_append_metric_family`. -/
def appendMetricFamily (lines : List String) (name helpText metricType : String)
    (samples : List String) : List String :=
  lines ++ ["# HELP " ++ name ++ " " ++ helpText, "# TYPE " ++ name ++ " " ++ metricType] ++
    samples ++ [""]

/-- `str.rstrip`, for ASCII white space: what the metrics text ends in is a line feed after a
number. -/
def rstrip (s : String) : String := String.ofList (s.toList.rdropWhile Decimal.isSpace)

/-- What `_prometheus_metrics_text` reads of a session. -/
structure ScrapedSession (α : Type) extends MeasuredSession α where
  clientId : String

/-- `latency_sessions`. -/
def measuredSessions {α : Type} (sessions : List (ScrapedSession α)) : List (ScrapedSession α) :=
  sessions.filter fun s => decide (0 < s.latency.sampleCount)

section Text

variable {α : Type} [LinearOrder α] [Zero α] [Div α] [IntCast α]

/-- A sample of a client. -/
def clientSample (name : String) (s : ScrapedSession α) (value : String) : String :=
  name ++ "\x7b" ++ clientLabel s.clientId ++ "\x7d " ++ value

/-- The variable `lines` of `_prometheus_metrics_text` at its end. -/
def prometheusLines (str : α → String) (round round1 : α → α) (elapsed : α)
    (totalEventsDispatched : Nat) (sessions : List (ScrapedSession α)) : List String :=
  let throughput :=
    round1 (((totalEventsDispatched : Int) : α) / max elapsed ((1 : Int) : α))
  let lines := appendMetricFamily [] "market_data_connected_clients"
    "Current number of connected WebSocket clients" "gauge"
    ["market_data_connected_clients" ++ " " ++ sessions.length.repr]
  let lines := appendMetricFamily lines "market_data_events_dispatched_total"
    "Total events dispatched since startup" "counter"
    ["market_data_events_dispatched_total" ++ " " ++ totalEventsDispatched.repr]
  let lines := appendMetricFamily lines "market_data_throughput_events_per_sec"
    "Current fanout throughput" "gauge"
    ["market_data_throughput_events_per_sec" ++ " " ++ str throughput]
  if sessions.isEmpty then lines
  else
    let lines := appendMetricFamily lines "market_data_client_sent_total"
      "Total messages sent per client" "counter"
      (sessions.map fun s => clientSample "market_data_client_sent_total" s s.stats.sent.repr)
    let lines := appendMetricFamily lines "market_data_client_dropped_total"
      "Total messages dropped per client" "counter"
      (sessions.map fun s =>
        clientSample "market_data_client_dropped_total" s s.stats.dropped.repr)
    let latencySessions := measuredSessions sessions
    if latencySessions.isEmpty then lines
    else
      let lines := appendMetricFamily lines "market_data_client_latency_p50_ms"
        "Rolling p50 dispatch latency in ms" "gauge"
        (latencySessions.map fun s =>
          clientSample "market_data_client_latency_p50_ms" s (str (s.latency.p50 round)))
      appendMetricFamily lines "market_data_client_latency_p99_ms"
        "Rolling p99 dispatch latency in ms" "gauge"
        (latencySessions.map fun s =>
          clientSample "market_data_client_latency_p99_ms" s (str (s.latency.p99 round)))

/-- `_prometheus_metrics_text`. -/
def prometheusMetricsText (str : α → String) (round round1 : α → α) (elapsed : α)
    (totalEventsDispatched : Nat) (sessions : List (ScrapedSession α)) : String :=
  rstrip ("\n".intercalate
    (prometheusLines str round round1 elapsed totalEventsDispatched sessions)) ++ "\n"

/-! ### Metric families -/

/-- A metric family, its samples by their client. -/
structure Family where
  name : String
  help : String
  kind : String
  samples : List (Option String × String)

namespace Family

/-- The label of a client's samples. -/
def labelsOf (client : Option String) : List (String × String) :=
  client.toList.map fun id => ("client_id", id)

/-- A sample as it is written. -/
def sampleLine (name : String) (s : Option String × String) : String :=
  match s.1 with
  | none => name ++ " " ++ s.2
  | some id => name ++ "\x7b" ++ clientLabel id ++ "\x7d " ++ s.2

/-- The lines of a family. -/
def lines (f : Family) : List String :=
  ["# HELP " ++ f.name ++ " " ++ f.help, "# TYPE " ++ f.name ++ " " ++ f.kind] ++
    f.samples.map (sampleLine f.name) ++ [""]

/-- What the lines say. -/
def entries (f : Family) : List (List Entry) :=
  [[.help f.name f.help], [.type f.name f.kind]] ++
    f.samples.map (fun s => [.sample ⟨f.name, labelsOf s.1, s.2⟩]) ++ [[]]

/-- A family that can be read back. -/
structure Readable (f : Family) : Prop where
  name : IsName f.name
  help : '\n' ∉ f.help.toList
  kind : f.kind ∈ Exposition.kinds
  clients : ∀ s ∈ f.samples, ∀ id ∈ s.1, '\n' ∉ id.toList
  values : ∀ s ∈ f.samples, s.2.toList ≠ [] ∧ ∀ c ∈ s.2.toList, Decimal.isSpace c = false
  nonempty : f.samples ≠ []

end Family

/-- A family with one sample of the whole gateway. -/
def plainFamily (name help kind value : String) : Family := ⟨name, help, kind, [(none, value)]⟩

/-- A family with a sample of each of these sessions. -/
def clientFamily {α : Type} (name help kind : String) (sessions : List (ScrapedSession α))
    (value : ScrapedSession α → String) : Family :=
  ⟨name, help, kind, sessions.map fun s => (some s.clientId, value s)⟩

/-- The families of the text. -/
def families (str : α → String) (round round1 : α → α) (elapsed : α)
    (totalEventsDispatched : Nat) (sessions : List (ScrapedSession α)) : List Family :=
  [plainFamily "market_data_connected_clients" "Current number of connected WebSocket clients"
      "gauge" sessions.length.repr,
    plainFamily "market_data_events_dispatched_total" "Total events dispatched since startup"
      "counter" totalEventsDispatched.repr,
    plainFamily "market_data_throughput_events_per_sec" "Current fanout throughput" "gauge"
      (str (round1 (((totalEventsDispatched : Int) : α) / max elapsed ((1 : Int) : α))))] ++
  (if sessions.isEmpty then []
  else [clientFamily "market_data_client_sent_total" "Total messages sent per client" "counter"
      sessions fun s => s.stats.sent.repr,
    clientFamily "market_data_client_dropped_total" "Total messages dropped per client" "counter"
      sessions fun s => s.stats.dropped.repr]) ++
  (if (measuredSessions sessions).isEmpty then []
  else [clientFamily "market_data_client_latency_p50_ms" "Rolling p50 dispatch latency in ms"
      "gauge" (measuredSessions sessions) fun s => str (s.latency.p50 round),
    clientFamily "market_data_client_latency_p99_ms" "Rolling p99 dispatch latency in ms" "gauge"
      (measuredSessions sessions) fun s => str (s.latency.p99 round)])

/-- **Which families there are.** -/
theorem mem_families {str : α → String} {round round1 : α → α} {elapsed : α}
    {totalEventsDispatched : Nat} {sessions : List (ScrapedSession α)} {f : Family} :
    f ∈ families str round round1 elapsed totalEventsDispatched sessions ↔
      f = plainFamily "market_data_connected_clients"
        "Current number of connected WebSocket clients" "gauge" sessions.length.repr ∨
      f = plainFamily "market_data_events_dispatched_total"
        "Total events dispatched since startup" "counter" totalEventsDispatched.repr ∨
      f = plainFamily "market_data_throughput_events_per_sec" "Current fanout throughput" "gauge"
        (str (round1 (((totalEventsDispatched : Int) : α) / max elapsed ((1 : Int) : α)))) ∨
      (sessions ≠ [] ∧ f = clientFamily "market_data_client_sent_total"
        "Total messages sent per client" "counter" sessions fun s => s.stats.sent.repr) ∨
      (sessions ≠ [] ∧ f = clientFamily "market_data_client_dropped_total"
        "Total messages dropped per client" "counter" sessions fun s => s.stats.dropped.repr) ∨
      (measuredSessions sessions ≠ [] ∧ f = clientFamily "market_data_client_latency_p50_ms"
        "Rolling p50 dispatch latency in ms" "gauge" (measuredSessions sessions)
        fun s => str (s.latency.p50 round)) ∨
      (measuredSessions sessions ≠ [] ∧ f = clientFamily "market_data_client_latency_p99_ms"
        "Rolling p99 dispatch latency in ms" "gauge" (measuredSessions sessions)
        fun s => str (s.latency.p99 round)) := by
  have hif : ∀ (ss : List (ScrapedSession α)) (g g' : Family),
      f ∈ (if ss.isEmpty then [] else [g, g']) ↔ ss ≠ [] ∧ f = g ∨ ss ≠ [] ∧ f = g' := by
    intro ss g g'
    cases ss <;> simp
  unfold families
  rw [List.mem_append, List.mem_append, hif, hif]
  simp only [List.mem_cons, List.not_mem_nil, or_false, or_assoc]

omit [LinearOrder α] [Zero α] [Div α] [IntCast α] in
theorem appendMetricFamily_eq (lines : List String) (f : Family) :
    appendMetricFamily lines f.name f.help f.kind (f.samples.map (Family.sampleLine f.name)) =
      lines ++ f.lines := by
  simp only [appendMetricFamily, Family.lines, List.append_assoc]

omit [LinearOrder α] [Zero α] [Div α] [IntCast α] in
theorem appendMetricFamily_clients (lines : List String) (name help kind : String)
    (sessions : List (ScrapedSession α)) (v : ScrapedSession α → String) :
    appendMetricFamily lines name help kind (sessions.map fun s => clientSample name s (v s)) =
      lines ++ (clientFamily name help kind sessions v).lines := by
  rw [← appendMetricFamily_eq]
  show _ = appendMetricFamily lines name help kind (List.map _ (sessions.map _))
  rw [List.map_map]
  rfl

/-- **The text is that of its families.** -/
theorem prometheusLines_eq (str : α → String) (round round1 : α → α) (elapsed : α)
    (totalEventsDispatched : Nat) (sessions : List (ScrapedSession α)) :
    prometheusLines str round round1 elapsed totalEventsDispatched sessions =
      (families str round round1 elapsed totalEventsDispatched sessions).flatMap Family.lines := by
  have hplain : ∀ (lines : List String) (name help kind v : String),
      appendMetricFamily lines name help kind [name ++ " " ++ v] =
        lines ++ (plainFamily name help kind v).lines :=
    fun lines name help kind v => appendMetricFamily_eq lines (plainFamily name help kind v)
  unfold prometheusLines families
  dsimp only
  rw [List.flatMap_append, List.flatMap_append]
  simp only [hplain, appendMetricFamily_clients]
  by_cases hs : sessions.isEmpty = true
  · have hm : (measuredSessions sessions).isEmpty = true := by
      rw [List.isEmpty_iff.mp hs]
      rfl
    rw [if_pos hs, if_pos hs, if_pos hm]
    simp only [List.flatMap_cons, List.flatMap_nil, List.append_nil, List.nil_append,
      List.append_assoc]
  · rw [if_neg hs, if_neg hs]
    by_cases hm : (measuredSessions sessions).isEmpty = true
    · rw [if_pos hm, if_pos hm]
      simp only [List.flatMap_cons, List.flatMap_nil, List.append_nil, List.nil_append,
        List.append_assoc]
    · rw [if_neg hm, if_neg hm]
      simp only [List.flatMap_cons, List.flatMap_nil, List.append_nil, List.nil_append,
        List.append_assoc]

end Text

/-! ### Reading the text back -/

/-- **The two replacements escape the label.** -/
theorem replaceChar_replaceChar (cs : List Char) :
    replaceChar (replaceChar cs '\\' ['\\', '\\']) '"' ['\\', '"'] = Exposition.escape cs := by
  induction cs with
  | nil => rfl
  | cons c cs ih =>
      unfold replaceChar Exposition.escape at ih ⊢
      rw [List.flatMap_cons, List.flatMap_append, ih, List.flatMap_cons]
      by_cases hb : c = '\\'
      · subst hb
        rfl
      · rw [if_neg hb, if_neg hb, List.flatMap_singleton]

theorem toList_clientLabel (id : String) :
    (clientLabel id).toList = "client_id".toList ++ '=' :: '"' ::
      (Exposition.escape id.toList ++ ['"']) := by
  have hescaped : (String.ofList (Exposition.escape id.toList)).toList =
      Exposition.escape id.toList := String.toList_ofList
  unfold clientLabel
  rw [replaceChar_replaceChar, String.toList_append, String.toList_append, hescaped,
    List.append_assoc]
  rfl

theorem not_mem_escape {cs : List Char} (h : '\n' ∉ cs) : '\n' ∉ Exposition.escape cs := by
  intro hmem
  obtain ⟨c, hc, hmem⟩ := List.mem_flatMap.mp hmem
  split at hmem
  · exact absurd hmem (by decide)
  · split at hmem
    · exact absurd hmem (by decide)
    · exact h (List.mem_singleton.mp hmem ▸ hc)

theorem not_mem_of_isName {n : String} (h : IsName n) : '\n' ∉ n.toList := by
  obtain ⟨c, cs, hlist, -, hall⟩ := h
  intro hmem
  exact absurd (hall '\n' (hlist ▸ hmem)) (by decide)

namespace Family

variable {f : Family}

theorem isValue {v : String} (h : v.toList ≠ [] ∧ ∀ c ∈ v.toList, Decimal.isSpace c = false) :
    IsValue v := by
  refine ⟨h.1, fun hmem => ?_⟩
  exact absurd (h.2 ' ' hmem) (by decide)

/-- **A sample line is a sample.** -/
theorem line_sampleLine (hf : f.Readable) {s : Option String × String} (hs : s ∈ f.samples) :
    Exposition.line (sampleLine f.name s).toList = some [.sample ⟨f.name, labelsOf s.1, s.2⟩] := by
  obtain ⟨client, v⟩ := s
  have hv := isValue (hf.values _ hs)
  cases client with
  | none =>
      show Exposition.line (f.name ++ " " ++ v).toList = _
      rw [String.toList_append, String.toList_append, List.append_assoc]
      exact Exposition.line_plain hf.name hv
  | some id =>
      have htext : (f.name ++ "\x7b" ++ clientLabel id ++ "\x7d " ++ v).toList =
          f.name.toList ++ '{' :: ("client_id".toList ++ '=' :: '"' ::
            (Exposition.escape id.toList ++ '"' :: '}' :: ' ' :: v.toList)) := by
        simp only [String.toList_append, toList_clientLabel, List.append_assoc, List.cons_append]
        rfl
      show Exposition.line (f.name ++ "\x7b" ++ clientLabel id ++ "\x7d " ++ v).toList = _
      rw [htext]
      exact Exposition.line_labelled hf.name (by decide) hv id

/-- No line breaks off. -/
theorem not_mem_lines (hf : f.Readable) : ∀ l ∈ f.lines, '\n' ∉ l.toList := by
  have hname := not_mem_of_isName hf.name
  intro l hl
  rcases List.mem_append.mp hl with hl | hl
  · rcases List.mem_append.mp hl with hl | hl
    · have hkind : '\n' ∉ f.kind.toList := by
        have hall : ∀ k ∈ Exposition.kinds, '\n' ∉ k.toList := by decide
        exact hall _ hf.kind
      rcases List.mem_cons.mp hl with rfl | hl
      · simp only [String.toList_append, List.mem_append, not_or]
        exact ⟨⟨⟨by decide, hname⟩, by decide⟩, hf.help⟩
      · obtain rfl := List.mem_singleton.mp hl
        simp only [String.toList_append, List.mem_append, not_or]
        exact ⟨⟨⟨by decide, hname⟩, by decide⟩, hkind⟩
    · obtain ⟨⟨client, v⟩, hs, rfl⟩ := List.mem_map.mp hl
      have hv : '\n' ∉ v.toList := fun hmem =>
        absurd ((hf.values _ hs).2 '\n' hmem) (by decide)
      cases client with
      | none =>
          show '\n' ∉ (f.name ++ " " ++ v).toList
          simp only [String.toList_append, List.mem_append, not_or]
          exact ⟨⟨hname, by decide⟩, hv⟩
      | some id =>
          have hid := not_mem_escape (hf.clients _ hs id rfl)
          show '\n' ∉ (f.name ++ "\x7b" ++ clientLabel id ++ "\x7d " ++ v).toList
          simp only [String.toList_append, toList_clientLabel, List.mem_append,
            List.mem_cons, not_or]
          exact ⟨⟨⟨⟨hname, by decide⟩, ⟨by decide, by decide, by decide, hid, by decide⟩⟩,
            by decide⟩, hv⟩
  · obtain rfl := List.mem_singleton.mp hl
    decide

/-- **The lines of a family say what they should say.** -/
theorem line_lines (hf : f.Readable) :
    List.Forall₂ (fun l e => Exposition.line l = some e) (f.lines.map String.toList) f.entries := by
  have hsamples : List.Forall₂ (fun l e => Exposition.line l = some e)
      ((f.samples.map (sampleLine f.name)).map String.toList)
      (f.samples.map fun s => [.sample ⟨f.name, labelsOf s.1, s.2⟩]) := by
    rw [List.map_map, List.forall₂_map_left_iff, List.forall₂_map_right_iff,
      List.forall₂_same]
    exact fun s hs => line_sampleLine hf hs
  have hhead : List.Forall₂ (fun l e => Exposition.line l = some e)
      (["# HELP " ++ f.name ++ " " ++ f.help, "# TYPE " ++ f.name ++ " " ++ f.kind].map
        String.toList) [[.help f.name f.help], [.type f.name f.kind]] := by
    refine .cons ?_ (.cons ?_ .nil)
    · rw [String.toList_append, String.toList_append, String.toList_append, List.append_assoc,
        List.append_assoc]
      exact Exposition.line_help hf.name f.help
    · rw [String.toList_append, String.toList_append, String.toList_append, List.append_assoc,
        List.append_assoc]
      exact Exposition.line_type hf.name hf.kind
  rw [lines, entries, List.map_append, List.map_append]
  exact List.rel_append (List.rel_append hhead hsamples) (.cons rfl .nil)

/-- A family ends with a sample and an empty line. -/
theorem lines_eq (hf : f.Readable) : ∃ init last, f.lines = init ++ [last] ++ [""] ∧
    last.toList ≠ [] ∧ ∀ c ∈ last.toList.getLast?, Decimal.isSpace c = false := by
  obtain ⟨samples, s, hsamples⟩ : ∃ samples s, f.samples = samples ++ [s] :=
    ⟨_, _, (List.dropLast_append_getLast hf.nonempty).symm⟩
  refine ⟨["# HELP " ++ f.name ++ " " ++ f.help, "# TYPE " ++ f.name ++ " " ++ f.kind] ++
    samples.map (sampleLine f.name), sampleLine f.name s, ?_, ?_⟩
  · rw [lines, hsamples, List.map_append, List.append_assoc]
    rfl
  · have hv := hf.values s (hsamples ▸ List.mem_append_right _ (List.mem_singleton_self s))
    have htext : ∃ before, (sampleLine f.name s).toList = before ++ s.2.toList := by
      obtain ⟨client, v⟩ := s
      cases client <;> exact ⟨_, String.toList_append⟩
    obtain ⟨before, htext⟩ := htext
    rw [htext, List.getLast?_append_of_ne_nil _ hv.1]
    exact ⟨by simp [hv.1], fun c hc => hv.2 c (List.mem_of_getLast? hc)⟩

/-- **The text of readable families is read back.** -/
theorem parse_text {fs : List Family} (hne : fs ≠ []) (hfs : ∀ f ∈ fs, f.Readable) :
    Exposition.parse (rstrip ("\n".intercalate (fs.flatMap lines)) ++ "\n").toList =
      some (fs.flatMap entries).flatten := by
  obtain ⟨gs, f, rfl⟩ : ∃ gs f, fs = gs ++ [f] :=
    ⟨_, _, (List.dropLast_append_getLast hne).symm⟩
  obtain ⟨init, last, hf, hlast, hsp⟩ :=
    lines_eq (hfs f (List.mem_append_right _ (List.mem_singleton_self f)))
  -- without its last line the text does not end in white space
  have hlines : ((gs ++ [f]).flatMap lines).map String.toList =
      ((gs.flatMap lines ++ init).map String.toList ++ [last.toList]) ++ [[]] := by
    rw [List.flatMap_append, List.flatMap_singleton, hf]
    simp only [List.map_append, List.map_cons, List.map_nil, List.append_assoc]
    rfl
  have htext : (rstrip ("\n".intercalate ((gs ++ [f]).flatMap lines)) ++ "\n").toList =
      ['\n'].intercalate (((gs ++ [f]).flatMap lines).map String.toList) := by
    rw [String.toList_append, rstrip, String.toList_ofList, String.toList_intercalate, hlines]
    show List.rdropWhile _ (['\n'].intercalate _) ++ ['\n'] = _
    rw [Exposition.intercalate_concat _ (by simp), List.append_nil,
      List.rdropWhile_concat_pos _ _ _ (by decide)]
    congr 1
    rw [List.rdropWhile_eq_self_iff]
    intro hne
    have hend := Exposition.getLast?_intercalate_concat ['\n']
      ((gs.flatMap lines ++ init).map String.toList) hlast
    rw [hsp _ (by rw [← hend, List.getLast?_eq_getLast_of_ne_nil hne]; rfl)]
    exact Bool.false_ne_true
  have hread : List.Forall₂ (fun l e => Exposition.line l = some e)
      (((gs ++ [f]).flatMap lines).map String.toList) ((gs ++ [f]).flatMap entries) := by
    clear hlines htext hf hne
    generalize gs ++ [f] = fs at hfs ⊢
    induction fs with
    | nil => exact .nil
    | cons g fs ih =>
        have hrest := ih fun f hf => hfs f (List.mem_cons_of_mem _ hf)
        rw [List.flatMap_cons, List.flatMap_cons, List.map_append]
        exact List.rel_append (line_lines (hfs g List.mem_cons_self)) hrest
  -- and every line stands by itself
  have hbreak : ∀ l ∈ (gs.flatMap lines ++ init).map String.toList ++ [last.toList], '\n' ∉ l := by
    intro l hl
    have hmem : l ∈ ((gs ++ [f]).flatMap lines).map String.toList :=
      hlines ▸ List.mem_append_left _ hl
    obtain ⟨text, htext, rfl⟩ := List.mem_map.mp hmem
    obtain ⟨g, hg, hline⟩ := List.mem_flatMap.mp htext
    exact not_mem_lines (hfs g hg) text hline
  rw [htext, hlines, Exposition.parse_intercalate (by simp) hbreak, ← hlines,
    Exposition.mapM_line hread, Option.map_some]

end Family

/-! ### What the gateway has counted -/

section Scrape

variable {α : Type} [LinearOrder α] [Zero α] [Div α] [IntCast α]

/-- `list(all_sessions.values())`, with what is read of each session. -/
def scrapedSessions (g : Process) (latency : SessionId → LatencyTracker α) :
    List (ScrapedSession α) :=
  g.registry.allSessions.values.map fun sid =>
    { clientId := (g.clients sid).session.clientId
      stats := (g.clients sid).session.stats
      latency := latency sid }

/-- **What there is to tell**: three samples of the gateway, and two of each registered session, or
four, if it has a latency. -/
inductive Counted (str : α → String) (round round1 : α → α) (elapsed : α)
    (totalEventsDispatched : Nat) (latency : SessionId → LatencyTracker α) (g : Process) :
    Sample → Prop
  | connected : Counted str round round1 elapsed totalEventsDispatched latency g
      ⟨"market_data_connected_clients", [], g.registry.allSessions.values.length.repr⟩
  | dispatched : Counted str round round1 elapsed totalEventsDispatched latency g
      ⟨"market_data_events_dispatched_total", [], totalEventsDispatched.repr⟩
  | throughput : Counted str round round1 elapsed totalEventsDispatched latency g
      ⟨"market_data_throughput_events_per_sec", [],
        str (round1 (((totalEventsDispatched : Int) : α) / max elapsed ((1 : Int) : α)))⟩
  | sent {id : String} {sid : SessionId} (h : g.registry.allSessions.get? id = some sid) :
      Counted str round round1 elapsed totalEventsDispatched latency g
        ⟨"market_data_client_sent_total", [("client_id", id)],
          (g.clients sid).session.stats.sent.repr⟩
  | dropped {id : String} {sid : SessionId} (h : g.registry.allSessions.get? id = some sid) :
      Counted str round round1 elapsed totalEventsDispatched latency g
        ⟨"market_data_client_dropped_total", [("client_id", id)],
          (g.clients sid).session.stats.dropped.repr⟩
  | p50 {id : String} {sid : SessionId} (h : g.registry.allSessions.get? id = some sid)
      (hs : 0 < (latency sid).sampleCount) :
      Counted str round round1 elapsed totalEventsDispatched latency g
        ⟨"market_data_client_latency_p50_ms", [("client_id", id)], str ((latency sid).p50 round)⟩
  | p99 {id : String} {sid : SessionId} (h : g.registry.allSessions.get? id = some sid)
      (hs : 0 < (latency sid).sampleCount) :
      Counted str round round1 elapsed totalEventsDispatched latency g
        ⟨"market_data_client_latency_p99_ms", [("client_id", id)], str ((latency sid).p99 round)⟩

/-- The samples of the families. -/
def familySamples (fs : List Family) : List Sample :=
  fs.flatMap fun f => f.samples.map fun s => ⟨f.name, Family.labelsOf s.1, s.2⟩

theorem filterMap_entries (fs : List Family) :
    (fs.flatMap Family.entries).flatten.filterMap Entry.sample? = familySamples fs := by
  induction fs with
  | nil => rfl
  | cons f fs ih =>
      have hsamples : ∀ ss : List (Option String × String),
          (ss.map fun s => [Entry.sample ⟨f.name, Family.labelsOf s.1, s.2⟩]).flatten.filterMap
            Entry.sample? = ss.map fun s => ⟨f.name, Family.labelsOf s.1, s.2⟩ := by
        intro ss
        induction ss with
        | nil => rfl
        | cons s ss ih => simpa [Entry.sample?] using ih
      rw [List.flatMap_cons, List.flatten_append, List.filterMap_append, ih, familySamples,
        familySamples, List.flatMap_cons, Family.entries]
      simp only [List.flatten_append, List.filterMap_append, hsamples]
      simp [Entry.sample?]

/-- A text that is written without white space. -/
def Unspaced (v : String) : Prop := v.toList ≠ [] ∧ ∀ c ∈ v.toList, Decimal.isSpace c = false

instance (v : String) : Decidable (Unspaced v) :=
  decidable_of_iff (v.toList ≠ [] ∧ v.toList.all (fun c => !Decimal.isSpace c) = true)
    (by simp [Unspaced])

theorem unspaced_repr (n : Nat) : Unspaced n.repr := by
  unfold Unspaced
  rw [Nat.toList_repr]
  exact ⟨Nat.toDigits_ne_nil, fun c hc => Decimal.isSpace_eq_false (Decimal.isDigit_of_mem c hc)⟩

/-- The names of the families. -/
def familyNames : List String :=
  ["market_data_connected_clients", "market_data_events_dispatched_total",
    "market_data_throughput_events_per_sec", "market_data_client_sent_total",
    "market_data_client_dropped_total", "market_data_client_latency_p50_ms",
    "market_data_client_latency_p99_ms"]

variable {str : α → String} {round round1 : α → α} {elapsed : α} {totalEventsDispatched : Nat}
  {sessions : List (ScrapedSession α)}

omit [LinearOrder α] [Zero α] [Div α] [IntCast α] in
theorem readable_clients {name help kind : String} (hn : IsName name) (hh : '\n' ∉ help.toList)
    (hk : kind ∈ Exposition.kinds) (hids : ∀ s ∈ sessions, '\n' ∉ s.clientId.toList)
    (hne : sessions ≠ []) {v : ScrapedSession α → String} (hv : ∀ s, Unspaced (v s)) :
    (clientFamily name help kind sessions v).Readable where
  name := hn
  help := hh
  kind := hk
  clients s hs id hid := by
    obtain ⟨s', hs', rfl⟩ := List.mem_map.mp hs
    obtain rfl := Option.some.inj hid
    exact hids s' hs'
  values s hs := by
    obtain ⟨s', -, rfl⟩ := List.mem_map.mp hs
    exact hv s'
  nonempty := by simpa [clientFamily] using hne

theorem readable_plain {name help kind v : String} (hn : IsName name) (hh : '\n' ∉ help.toList)
    (hk : kind ∈ Exposition.kinds) (hv : Unspaced v) :
    (plainFamily name help kind v).Readable where
  name := hn
  help := hh
  kind := hk
  clients s hs id hid := by
    obtain rfl := List.mem_singleton.mp hs
    cases hid
  values s hs := by
    obtain rfl := List.mem_singleton.mp hs
    exact hv
  nonempty := List.cons_ne_nil _ _

/-- **Every family of the text can be read back.** -/
theorem readable_families (hstr : ∀ x, Unspaced (str x))
    (hids : ∀ s ∈ sessions, '\n' ∉ s.clientId.toList) :
    ∀ f ∈ families str round round1 elapsed totalEventsDispatched sessions, f.Readable := by
  have hids' : ∀ s ∈ measuredSessions sessions, '\n' ∉ s.clientId.toList := fun s hs =>
    hids s (List.mem_filter.mp hs).1
  intro f hf
  rcases mem_families.mp hf with rfl | rfl | rfl | ⟨hs, rfl⟩ | ⟨hs, rfl⟩ | ⟨hm, rfl⟩ | ⟨hm, rfl⟩
  · exact readable_plain (by decide +kernel) (by decide +kernel)
      (by decide +kernel) (unspaced_repr _)
  · exact readable_plain (by decide +kernel) (by decide +kernel)
      (by decide +kernel) (unspaced_repr _)
  · exact readable_plain (by decide +kernel) (by decide +kernel)
      (by decide +kernel) (hstr _)
  · exact readable_clients (by decide +kernel) (by decide +kernel)
      (by decide +kernel) hids hs fun s => unspaced_repr _
  · exact readable_clients (by decide +kernel) (by decide +kernel)
      (by decide +kernel) hids hs fun s => unspaced_repr _
  · exact readable_clients (by decide +kernel) (by decide +kernel)
      (by decide +kernel) hids' hm fun s => hstr _
  · exact readable_clients (by decide +kernel) (by decide +kernel)
      (by decide +kernel) hids' hm fun s => hstr _

/-! ### No series twice -/

variable (str round round1 elapsed totalEventsDispatched) in
theorem names_sublist (sessions : List (ScrapedSession α)) :
    ((families str round round1 elapsed totalEventsDispatched sessions).map Family.name).Sublist
      familyNames := by
  unfold families
  rw [List.map_append, List.map_append]
  show List.Sublist (_ ++ _ ++ _)
    (familyNames.take 3 ++ (familyNames.drop 3).take 2 ++ familyNames.drop 5)
  refine List.Sublist.append (List.Sublist.append (List.Sublist.refl _) ?_) ?_
  · split
    · exact List.nil_sublist _
    · exact List.Sublist.refl _
  · split
    · exact List.nil_sublist _
    · exact List.Sublist.refl _

theorem labelsOf_injective : Function.Injective Family.labelsOf := by
  intro c c' h
  cases c with
  | none =>
      cases c' with
      | none => rfl
      | some id => cases h
  | some id =>
      cases c' with
      | none => cases h
      | some id' =>
          obtain ⟨hpair, -⟩ := List.cons.inj h
          rw [(Prod.mk.inj hpair).2]

/-- **Families of different names, each with different clients, have no series twice.** -/
theorem nodup_series {fs : List Family} (hnames : (fs.map Family.name).Nodup)
    (hclients : ∀ f ∈ fs, (f.samples.map Prod.fst).Nodup) :
    ((familySamples fs).map Sample.series).Nodup := by
  have hmap : (familySamples fs).map Sample.series = fs.flatMap fun f =>
      (f.samples.map Prod.fst).map fun c => (f.name, Family.labelsOf c) := by
    unfold familySamples
    rw [List.map_flatMap]
    refine List.flatMap_congr fun f _ => ?_
    rw [List.map_map, List.map_map]
    rfl
  rw [hmap, List.nodup_flatMap]
  constructor
  · intro f hf
    refine (hclients f hf).map fun c c' h => ?_
    exact labelsOf_injective (Prod.mk.inj h).2
  · rw [List.Nodup, List.pairwise_map] at hnames
    refine hnames.imp fun {f g} hne => ?_
    show List.Disjoint _ _
    intro x hx hx'
    obtain ⟨c, -, rfl⟩ := List.mem_map.mp hx
    obtain ⟨c', -, heq⟩ := List.mem_map.mp hx'
    exact hne (Prod.mk.inj heq).1.symm

/-- Every client stands once in a family. -/
theorem nodup_clients (hids : (sessions.map ScrapedSession.clientId).Nodup) :
    ∀ f ∈ families str round round1 elapsed totalEventsDispatched sessions,
      (f.samples.map Prod.fst).Nodup := by
  have hclient : ∀ (name help kind : String) {ss : List (ScrapedSession α)}
      (v : ScrapedSession α → String), ss.Sublist sessions →
      ((clientFamily name help kind ss v).samples.map Prod.fst).Nodup := by
    intro name help kind ss v hsub
    have heq : (clientFamily name help kind ss v).samples.map Prod.fst =
        (ss.map ScrapedSession.clientId).map some := by
      rw [clientFamily, List.map_map, List.map_map]
      rfl
    rw [heq]
    exact ((hsub.map _).nodup hids).map (Option.some_injective _)
  have hmeasured : (measuredSessions sessions).Sublist sessions := List.filter_sublist
  intro f hf
  rcases mem_families.mp hf with rfl | rfl | rfl | ⟨-, rfl⟩ | ⟨-, rfl⟩ | ⟨-, rfl⟩ | ⟨-, rfl⟩
  · exact List.nodup_singleton _
  · exact List.nodup_singleton _
  · exact List.nodup_singleton _
  · exact hclient _ _ _ _ (List.Sublist.refl sessions)
  · exact hclient _ _ _ _ (List.Sublist.refl sessions)
  · exact hclient _ _ _ _ hmeasured
  · exact hclient _ _ _ _ hmeasured

/-! ### The exposition -/

variable {latency : SessionId → LatencyTracker α} {g : Process}

/-- The session of a scraped one. -/
def scraped (g : Process) (latency : SessionId → LatencyTracker α) (sid : SessionId) :
    ScrapedSession α where
  clientId := (g.clients sid).session.clientId
  stats := (g.clients sid).session.stats
  latency := latency sid

omit [LinearOrder α] [Zero α] [Div α] [IntCast α] in
/-- **Which sessions are scraped**: those that are registered, under their own ids. -/
theorem mem_scrapedSessions (hn : Named g) {s : ScrapedSession α} :
    s ∈ scrapedSessions g latency ↔ ∃ id sid, g.registry.allSessions.get? id = some sid ∧
      id = s.clientId ∧ s = scraped g latency sid := by
  unfold scrapedSessions
  rw [List.mem_map]
  constructor
  · intro h
    obtain ⟨sid, hmem, rfl⟩ := h
    obtain ⟨id, hid⟩ := Dict.mem_values.mp hmem
    exact ⟨id, sid, hid, (hn sid id hid).1, rfl⟩
  · intro h
    obtain ⟨id, sid, hid, -, rfl⟩ := h
    exact ⟨sid, Dict.mem_values.mpr ⟨id, hid⟩, rfl⟩

omit [LinearOrder α] [Zero α] [Div α] [IntCast α] in
variable (latency) in
theorem clientIds (hn : Named g) :
    (scrapedSessions g latency).map ScrapedSession.clientId = g.registry.allSessions.keys := by
  unfold scrapedSessions Dict.values Dict.keys
  rw [List.map_map, List.map_map]
  refine List.map_congr_left fun entry hentry => ?_
  exact ((hn _ _ (Dict.mem_entries.mp hentry)).1).symm

/-- **Sample for sample, the families tell what there is to tell.** -/
theorem mem_familySamples (hn : Named g) {x : Sample} :
    x ∈ familySamples (families str round round1 elapsed totalEventsDispatched
      (scrapedSessions g latency)) ↔
      Counted str round round1 elapsed totalEventsDispatched latency g x := by
  have hlength : (scrapedSessions g latency).length = g.registry.allSessions.values.length :=
    List.length_map _
  unfold familySamples
  rw [List.mem_flatMap]
  constructor
  · intro h
    obtain ⟨f, hf, hx⟩ := h
    obtain ⟨s, hs, rfl⟩ := List.mem_map.mp hx
    have hclient : ∀ {ss : List (ScrapedSession α)} {v : ScrapedSession α → String},
        (∀ s ∈ ss, s ∈ scrapedSessions g latency) →
        s ∈ ss.map (fun s => (some s.clientId, v s)) →
        ∃ id sid, g.registry.allSessions.get? id = some sid ∧ scraped g latency sid ∈ ss ∧
          s = (some id, v (scraped g latency sid)) := by
      intro ss v hss hs
      obtain ⟨s', hs', rfl⟩ := List.mem_map.mp hs
      obtain ⟨id, sid, hid, rfl, rfl⟩ := (mem_scrapedSessions hn).mp (hss s' hs')
      exact ⟨_, sid, hid, hs', rfl⟩
    have hmeasured : ∀ s ∈ measuredSessions (scrapedSessions g latency),
        s ∈ scrapedSessions g latency := fun s hs => (List.mem_filter.mp hs).1
    rcases mem_families.mp hf with rfl | rfl | rfl | ⟨-, rfl⟩ | ⟨-, rfl⟩ | ⟨-, rfl⟩ | ⟨-, rfl⟩
    · obtain rfl := List.mem_singleton.mp hs
      rw [hlength]
      exact .connected
    · obtain rfl := List.mem_singleton.mp hs
      exact .dispatched
    · obtain rfl := List.mem_singleton.mp hs
      exact .throughput
    · obtain ⟨id, sid, hid, -, rfl⟩ := hclient (fun _ => id) hs
      exact .sent hid
    · obtain ⟨id, sid, hid, -, rfl⟩ := hclient (fun _ => id) hs
      exact .dropped hid
    · obtain ⟨id, sid, hid, hmem, rfl⟩ := hclient hmeasured hs
      exact .p50 hid (of_decide_eq_true (List.mem_filter.mp hmem).2)
    · obtain ⟨id, sid, hid, hmem, rfl⟩ := hclient hmeasured hs
      exact .p99 hid (of_decide_eq_true (List.mem_filter.mp hmem).2)
  · intro h
    have hin : ∀ {id : String} {sid : SessionId}, g.registry.allSessions.get? id = some sid →
        scraped g latency sid ∈ scrapedSessions g latency := fun {id sid} hid =>
      (mem_scrapedSessions hn).mpr ⟨id, sid, hid, (hn sid id hid).1, rfl⟩
    have hin' : ∀ {id : String} {sid : SessionId}, g.registry.allSessions.get? id = some sid →
        0 < (latency sid).sampleCount →
        scraped g latency sid ∈ measuredSessions (scrapedSessions g latency) := fun hid hs =>
      List.mem_filter.mpr ⟨hin hid, decide_eq_true hs⟩
    have hsample : ∀ {name help kind : String} {ss : List (ScrapedSession α)}
        {v : ScrapedSession α → String} {id : String} {sid : SessionId},
        g.registry.allSessions.get? id = some sid → scraped g latency sid ∈ ss →
        (⟨name, [("client_id", id)], v (scraped g latency sid)⟩ : Sample) ∈
          (clientFamily name help kind ss v).samples.map
            fun s => ⟨name, Family.labelsOf s.1, s.2⟩ := by
      intro name help kind ss v id sid hid hmem
      obtain rfl := (hn sid id hid).1
      exact List.mem_map.mpr ⟨_, List.mem_map.mpr ⟨_, hmem, rfl⟩, rfl⟩
    cases h with
    | connected =>
        refine ⟨_, mem_families.mpr (Or.inl rfl), ?_⟩
        rw [← hlength]
        exact List.mem_singleton_self _
    | dispatched =>
        exact ⟨_, mem_families.mpr (Or.inr (Or.inl rfl)), List.mem_singleton_self _⟩
    | throughput =>
        exact ⟨_, mem_families.mpr (Or.inr (Or.inr (Or.inl rfl))), List.mem_singleton_self _⟩
    | sent hid =>
        refine ⟨_, mem_families.mpr (Or.inr (Or.inr (Or.inr (Or.inl ⟨?_, rfl⟩)))), ?_⟩
        · exact List.ne_nil_of_mem (hin hid)
        · exact hsample hid (hin hid)
    | dropped hid =>
        refine ⟨_, mem_families.mpr (Or.inr (Or.inr (Or.inr (Or.inr (Or.inl ⟨?_, rfl⟩))))), ?_⟩
        · exact List.ne_nil_of_mem (hin hid)
        · exact hsample hid (hin hid)
    | p50 hid hs =>
        refine ⟨_, mem_families.mpr
          (Or.inr (Or.inr (Or.inr (Or.inr (Or.inr (Or.inl ⟨?_, rfl⟩)))))), ?_⟩
        · exact List.ne_nil_of_mem (hin' hid hs)
        · exact hsample hid (hin' hid hs)
    | p99 hid hs =>
        refine ⟨_, mem_families.mpr
          (Or.inr (Or.inr (Or.inr (Or.inr (Or.inr (Or.inr ⟨?_, rfl⟩)))))), ?_⟩
        · exact List.ne_nil_of_mem (hin' hid hs)
        · exact hsample hid (hin' hid hs)

/-- What a scraper should have read. -/
structure Scraped (counted : Sample → Prop) (entries : List Entry) : Prop where
  exact : ∀ s, .sample s ∈ entries ↔ counted s
  typed : ∀ s, .sample s ∈ entries → ∃ kind, .type s.name kind ∈ entries
  once : ((entries.filterMap Entry.sample?).map Sample.series).Nodup

theorem mem_sample_entries {fs : List Family} {s : Sample} :
    .sample s ∈ (fs.flatMap Family.entries).flatten ↔ s ∈ familySamples fs := by
  rw [← filterMap_entries, List.mem_filterMap]
  constructor
  · intro h
    exact ⟨_, h, rfl⟩
  · intro h
    obtain ⟨entry, hmem, hentry⟩ := h
    cases entry with
    | sample s' =>
        obtain rfl : s' = s := Option.some.inj hentry
        exact hmem
    | help | type => cases hentry

/-- **The exposition is exact.** In every reachable state of the gateway whose registered clients
have ids without a newline, the text of `/metrics/prometheus` parses, and what is read is what has
been counted, each series once and of a known type. -/
theorem scrape_exact {keyPrefix : String} {acts : List Act} {h : List Obs}
    (hr : Machine.run Process.step (.initial keyPrefix) acts = some (g, h))
    (hids : ∀ id ∈ g.registry.allSessions.keys, '\n' ∉ id.toList)
    (hstr : ∀ x, Unspaced (str x)) (round round1 : α → α) (elapsed : α)
    (totalEventsDispatched : Nat) (latency : SessionId → LatencyTracker α) :
    ∃ entries, Exposition.parse (prometheusMetricsText str round round1 elapsed
        totalEventsDispatched (scrapedSessions g latency)).toList = some entries ∧
      Scraped (Counted str round round1 elapsed totalEventsDispatched latency g) entries := by
  have hn : Named g := by
    refine Machine.run_preserves (P := Named) (fun _ _ _ _ hN hs => hN.step (Process.stepped hs))
      ?_ hr
    intro sid clientId hmem
    cases hmem
  have hids' : ∀ s ∈ scrapedSessions g latency, '\n' ∉ s.clientId.toList := by
    intro s hs
    refine hids _ ?_
    rw [← clientIds latency hn]
    exact List.mem_map.mpr ⟨s, hs, rfl⟩
  have hnodup : ((scrapedSessions g latency).map ScrapedSession.clientId).Nodup := by
    rw [clientIds latency hn]
    exact g.registry.allSessions.nodup
  have hnames := (names_sublist str round round1 elapsed totalEventsDispatched
    (scrapedSessions g latency)).nodup (by decide)
  unfold prometheusMetricsText
  rw [prometheusLines_eq, Family.parse_text (by simp [families]) (readable_families hstr hids')]
  refine ⟨_, rfl, fun s => mem_sample_entries.trans (mem_familySamples hn), fun s hs => ?_, ?_⟩
  · obtain ⟨f, hf, hmem⟩ := List.mem_flatMap.mp (mem_sample_entries.mp hs)
    obtain ⟨-, -, rfl⟩ := List.mem_map.mp hmem
    refine ⟨f.kind, List.mem_flatten.mpr ⟨[.type f.name f.kind], ?_, List.mem_singleton_self _⟩⟩
    refine List.mem_flatMap.mpr ⟨f, hf, ?_⟩
    exact List.mem_append_left _ (List.mem_append_left _ (List.mem_cons_of_mem _
      (List.mem_singleton_self _)))
  · rw [filterMap_entries]
    exact nodup_series hnames (nodup_clients hnodup)

end Scrape

/-- Two clients, one of an id to be escaped, the other with a latency. -/
def scrapedActs : List Act :=
  [.connect 0 "a\"b\\c" .dropOldest .raw, .connect 1 "1f2e3d4c" .dropOldest .raw]

theorem scrape_exact_two :
    ∃ g h entries, Machine.run Process.step (.initial "") scrapedActs = some (g, h) ∧
      Exposition.parse (prometheusMetricsText (fun x : ℚ => if x = 0 then "0.0" else "2.0") id id 60
        0 (scrapedSessions g fun sid => if sid = 1 then { samples := [2] } else {})).toList =
        some entries ∧
      .sample ⟨"market_data_client_sent_total", [("client_id", "a\"b\\c")], "0"⟩ ∈ entries ∧
      .sample ⟨"market_data_client_latency_p99_ms", [("client_id", "1f2e3d4c")], "2.0"⟩ ∈
        entries := by
  have hrun : ∃ g h, Machine.run Process.step (.initial "") scrapedActs = some (g, h) ∧
      g.registry.allSessions.keys = ["a\"b\\c", "1f2e3d4c"] ∧
      g.registry.allSessions.get? "a\"b\\c" = some 0 ∧
      g.registry.allSessions.get? "1f2e3d4c" = some 1 ∧ (g.clients 0).session.stats.sent = 0 :=
    ⟨_, _, rfl, by decide, by decide, by decide, rfl⟩
  obtain ⟨g, h, hr, hkeys, h0, h1, hsent⟩ := hrun
  have hstr : ∀ x : ℚ, Unspaced (if x = 0 then "0.0" else "2.0") := by
    intro x
    split <;> decide
  have hids : ∀ id ∈ g.registry.allSessions.keys, '\n' ∉ id.toList := by
    rw [hkeys]
    decide
  have hmedian : (if (1 : SessionId) = 1 then ({ samples := [2] } : LatencyTracker ℚ)
      else {}).p99 id = 2 := rfl
  obtain ⟨entries, hparse, hscraped⟩ := scrape_exact hr hids hstr id id 60 0
    fun sid => if sid = 1 then { samples := [2] } else {}
  have hsent' := (hscraped.exact _).mpr (.sent h0)
  rw [hsent] at hsent'
  have hp99 := (hscraped.exact _).mpr (.p99 h1 Nat.one_pos)
  rw [if_neg (hmedian ▸ two_ne_zero)] at hp99
  exact ⟨g, h, entries, hr, hparse, hsent', hp99⟩

end MarketData.Gateway
