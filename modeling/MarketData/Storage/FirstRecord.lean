import MarketData.Storage.ExactlyOnce

/-!
# MarketData.Storage.FirstRecord

**The first record wins.** A key that occurs more than once in a partition keeps the row of its
first occurrence: through retries, crashes, restarts from the committed position, and inserts that
take effect long after the writer has given up on them (`first_record_kept`).

It is `ON CONFLICT DO NOTHING` that keeps the row, but the order of the inserts that makes it the
first one. Whatever is inserted is *ready*: an earlier record of the partition with the same key has
a row already, or comes earlier in the same statement (`Ready`). A batch is ready because it is in
the order of the log and leaves nothing out (`Arranged`); and a statement that is ready stays so, as
rows are never removed.
-/

namespace MarketData.Storage

variable {ρ σ τ : Type} {log : PartitionKey → Nat → Option ρ}
    {parseEvent : ρ → Option (MarketEventOf σ)}
  {msToDatetime : Int → Option τ}

/-- A valid record at offset `n` has this row. -/
def RowAt (log : PartitionKey → Nat → Option ρ) (parseEvent : ρ → Option (MarketEventOf σ))
    (msToDatetime : Int → Option τ) (key : PartitionKey) (n : Nat) (r : TickRow σ τ) : Prop :=
  ∃ e, Valid log parseEvent key n e ∧ eventToRow msToDatetime e = some r

/-- The row is that of a record before which its partition has none with the same key. -/
def Leads (log : PartitionKey → Nat → Option ρ) (parseEvent : ρ → Option (MarketEventOf σ))
    (msToDatetime : Int → Option τ) (r : TickRow σ τ) : Prop :=
  ∃ key n, RowAt log parseEvent msToDatetime key n r ∧
    ∀ m < n, ∀ r', RowAt log parseEvent msToDatetime key m r' → r'.key ≠ r.key

/-! ### Statements that are ready -/

/-- Each row is the first one of its key, or the key has a row when its turn comes. -/
def Ready (log : PartitionKey → Nat → Option ρ) (parseEvent : ρ → Option (MarketEventOf σ))
    (msToDatetime : Int → Option τ) (t : MarketTicks σ τ) (rows : List (TickRow σ τ)) : Prop :=
  ∀ before r after, rows = before ++ r :: after → r.key ∈ t.rows.map TickRow.key ∨
    r.key ∈ before.map TickRow.key ∨ Leads log parseEvent msToDatetime r

theorem Ready.mono {t u : MarketTicks σ τ} {rows : List (TickRow σ τ)}
    (h : Ready log parseEvent msToDatetime t rows)
    (htu : ∀ key ∈ t.rows.map TickRow.key, key ∈ u.rows.map TickRow.key) :
    Ready log parseEvent msToDatetime u rows :=
  fun before r after hrows => (h before r after hrows).imp_left (htu r.key)

section Insert

variable [DecidableEq σ] [DecidableEq τ] {t : MarketTicks σ τ}

/-- **A statement that is ready adds leading rows only.** -/
theorem Ready.insertTicks {rows : List (TickRow σ τ)}
    (h : Ready log parseEvent msToDatetime t rows)
    (ht : ∀ r ∈ t.rows, Leads log parseEvent msToDatetime r) :
    ∀ r ∈ (t.insertTicks rows).rows, Leads log parseEvent msToDatetime r := by
  induction rows generalizing t with
  | nil => exact ht
  | cons x rows ih =>
      have hrest : Ready log parseEvent msToDatetime (t.insertRow x) rows := by
        intro before r after hrows
        rcases h (x :: before) r after (congrArg (x :: ·) hrows) with hkey | hkey | hlead
        · exact Or.inl (MarketTicks.mem_insertRow.mpr (Or.inl hkey))
        · rcases List.mem_cons.mp hkey with hkey | hkey
          · exact Or.inl (MarketTicks.mem_insertRow.mpr (Or.inr hkey))
          · exact Or.inr (Or.inl hkey)
        · exact Or.inr (Or.inr hlead)
      have hnew : ∀ r ∈ (t.insertRow x).rows, Leads log parseEvent msToDatetime r := by
        intro r hr
        rcases MarketTicks.mem_rows_insertRow.mp hr with hr | ⟨rfl, hkey⟩
        · exact ht r hr
        · rcases h [] r rows rfl with hmem | hmem | hlead
          · exact absurd hmem hkey
          · cases hmem
          · exact hlead
      exact ih hrest hnew

end Insert

/-! ### The order of a batch -/

/-- The batch is in the order of the log, and nothing delivered in this life is left out. -/
structure Arranged (log : PartitionKey → Nat → Option ρ) (parseEvent : ρ → Option (MarketEventOf σ))
    (msToDatetime : Int → Option τ) (s : TickStorage ρ σ τ) : Prop where
  valid : ∀ c ∈ s.writer.batch, Valid log parseEvent c.message.key c.message.offset c.event
  sorted : s.writer.batch.Pairwise fun c c' =>
    c.message.key = c'.message.key → c.message.offset < c'.message.offset
  delivered : s.writer.Live → ∀ key, ∀ n < s.positionOf key, ∀ e, Valid log parseEvent key n e →
    HasRow msToDatetime s.table e ∨
      ∃ c ∈ s.writer.batch, c.message.key = key ∧ c.message.offset = n ∧ c.event = e

/-- Rows and batch entries correspond. -/
theorem split_of_mapM {events : List (MarketEventOf σ)} {before after : List (TickRow σ τ)}
    {r : TickRow σ τ} (h : events.mapM (eventToRow msToDatetime) = some (before ++ r :: after)) :
    ∃ es e es', events = es ++ e :: es' ∧ es.mapM (eventToRow msToDatetime) = some before ∧
      eventToRow msToDatetime e = some r := by
  induction before generalizing events with
  | nil =>
      cases events with
      | nil => cases h
      | cons e events =>
          rw [List.mapM_cons] at h
          obtain ⟨r', hr', h⟩ := Option.bind_eq_some_iff.mp h
          obtain ⟨rest, hrest, h⟩ := Option.bind_eq_some_iff.mp h
          obtain ⟨rfl, -⟩ := List.cons.inj (Option.some.inj h)
          exact ⟨[], e, events, rfl, rfl, hr'⟩
  | cons x before ih =>
      cases events with
      | nil => cases h
      | cons e events =>
          rw [List.mapM_cons] at h
          obtain ⟨r', hr', h⟩ := Option.bind_eq_some_iff.mp h
          obtain ⟨rest, hrest, h⟩ := Option.bind_eq_some_iff.mp h
          obtain ⟨rfl, rfl⟩ := List.cons.inj (Option.some.inj h)
          obtain ⟨es, e', es', rfl, hes, hr⟩ := ih hrest
          refine ⟨e :: es, e', es', rfl, ?_, hr⟩
          rw [List.mapM_cons, hr', hes]
          rfl

theorem mem_rows_of_mapM {events : List (MarketEventOf σ)} {rows : List (TickRow σ τ)}
    (h : events.mapM (eventToRow msToDatetime) = some rows) {e : MarketEventOf σ} (he : e ∈ events)
    {r : TickRow σ τ} (hr : eventToRow msToDatetime e = some r) : r ∈ rows := by
  induction events generalizing rows with
  | nil => cases he
  | cons x events ih =>
      rw [List.mapM_cons] at h
      obtain ⟨r', hr', h⟩ := Option.bind_eq_some_iff.mp h
      obtain ⟨rest, hrest, h⟩ := Option.bind_eq_some_iff.mp h
      obtain rfl := Option.some.inj h
      rcases List.mem_cons.mp he with rfl | he
      · exact Option.some.inj (hr.symm.trans hr') ▸ List.mem_cons_self
      · exact List.mem_cons_of_mem r' (ih hrest he)

namespace Arranged

variable {s s' : TickStorage ρ σ τ}

/-- **The statement of a batch is ready.** -/
theorem ready (hA : Arranged log parseEvent msToDatetime s)
    (hI : Safe log parseEvent msToDatetime s)
    (hlive : s.writer.Live) {rows : List (TickRow σ τ)}
    (hrows : s.batchRows msToDatetime = some rows) :
    Ready log parseEvent msToDatetime s.table rows := by
  intro before r after hsplit
  rw [hsplit] at hrows
  obtain ⟨es, e, es', heq, hbefore, hr⟩ := split_of_mapM hrows
  obtain ⟨cs, cs', hbatch, hcs, hcs'⟩ := List.map_eq_append_iff.mp heq
  obtain ⟨c, cs'', rfl, rfl, -⟩ := List.map_eq_cons_iff.mp hcs'
  subst hcs
  have hmem : c ∈ s.writer.batch := hbatch ▸ List.mem_append_right _ List.mem_cons_self
  by_cases hlead : ∀ m < c.message.offset, ∀ r',
      RowAt log parseEvent msToDatetime c.message.key m r' → r'.key ≠ r.key
  · exact Or.inr (Or.inr ⟨c.message.key, c.message.offset, ⟨c.event, hA.valid c hmem, hr⟩, hlead⟩)
  · -- an earlier record of the partition has the key: it has a row, or is earlier in the batch
    obtain ⟨m, hm, r', ⟨e', he', hr'⟩, hkey⟩ : ∃ m < c.message.offset, ∃ r',
        RowAt log parseEvent msToDatetime c.message.key m r' ∧ r'.key = r.key := by
      by_contra hno
      exact hlead fun m hm r' hr' heq => hno ⟨m, hm, r', hr', heq⟩
    rcases hA.delivered hlive _ m (hm.trans (hI.batch c hmem)) e' he' with
      ⟨r'', hr'', hrow⟩ | ⟨c', hc', hpart, hoff, hevent⟩
    · obtain rfl := Option.some.inj (hr'.symm.trans hr'')
      exact Or.inl (hkey ▸ hrow)
    · refine Or.inr (Or.inl ?_)
      have hfirst : c' ∈ cs := by
        rw [hbatch] at hc'
        refine (List.mem_append.mp hc').resolve_right fun hlate => ?_
        rcases List.mem_cons.mp hlate with rfl | hlate
        · omega
        · have hsorted := hA.sorted
          rw [hbatch, List.pairwise_append] at hsorted
          have hlt := List.rel_of_pairwise_cons hsorted.2.1 hlate hpart.symm
          omega
      rw [← hkey]
      exact List.mem_map_of_mem (mem_rows_of_mapM hbefore
        (List.mem_map.mpr ⟨c', hfirst, hevent⟩) hr')

end Arranged

/-! ### The steps -/

theorem TickWriter.commitRest_batch (w : TickWriter ρ σ) (reason : FlushReason ρ)
    (rest : List (KafkaMessage ρ)) :
    (w.commitRest reason rest).batch = w.batch ∨ (w.commitRest reason rest).batch = [] := by
  rcases w.commitRest_cases reason rest with ⟨-, heq⟩ | ⟨-, heq | ⟨m, -, heq⟩⟩ <;> rw [heq]
  · exact Or.inl rfl
  · exact Or.inr rfl
  · exact Or.inl rfl

section Steps

variable [DecidableEq ρ] [DecidableEq σ] [DecidableEq τ]
    {s s' : TickStorage ρ σ τ} {a : WriterAct ρ}
  {o : List (WriterObs ρ σ)}

/-- What a step does to the batch and the positions. -/
inductive BatchStep (log : PartitionKey → Nat → Option ρ)
    (parseEvent : ρ → Option (MarketEventOf σ))
    (msToDatetime : Int → Option τ) (s s' : TickStorage ρ σ τ) : Prop
  | kept (hb : s'.writer.batch = s.writer.batch) (hp : s'.position = s.position)
      (hl : s'.writer.Live → s.writer.Live)
  /-- The batch is stored, or the life is over. -/
  | emptied (hb : s'.writer.batch = []) (hp : s'.position = s.position)
      (hl : s'.writer.Live → s.writer.Live ∧
        ∀ c ∈ s.writer.batch, HasRow msToDatetime s'.table c.event)
  | started (hb : s'.writer.batch = []) (hp : s'.position = s.committed)
  | joined (m : KafkaMessage ρ) (event : MarketEventOf σ) (hl : s.writer.Live)
      (hn : s.IsNext log m) (hv : parseEvent m.value = some event)
      (hp : s'.position = s.position.set m.key (m.offset + 1))
      (hb : s'.writer.batch = s.writer.batch ++ [⟨event, m⟩])
  | skipped (m : KafkaMessage ρ) (hl : s.writer.Live) (hn : s.IsNext log m)
      (hv : parseEvent m.value = none) (hp : s'.position = s.position.set m.key (m.offset + 1))
      (hb : s'.writer.batch = s.writer.batch)

theorem Safe.batchStep (hI : Safe log parseEvent msToDatetime s)
    (hs : TickStorage.Stepped log parseEvent msToDatetime s a s' o) :
    BatchStep log parseEvent msToDatetime s s' := by
  have hover : ∀ {w : TickWriter ρ σ} {t : TickStorage ρ σ τ}, t.writer = w.finish →
      t.position = s.position → BatchStep log parseEvent msToDatetime s t := by
    intro w t hw hp
    refine .emptied (by rw [hw]; rfl) hp fun hl => ?_
    rw [hw] at hl
    exact hl.elim
  cases hs with
  | started ht => exact .started rfl rfl
  | schema ht ht' => exact .kept rfl rfl fun _ => by simp [TickWriter.Live, ht]
  | ended | pollRaised | crash => exact hover rfl rfl
  | checked ht hstop => exact .kept rfl rfl fun _ => by simpa [TickWriter.Live, ht] using hstop
  | idle ht | expired ht | pollError ht =>
      exact .kept rfl rfl fun _ => by simp [TickWriter.Live, ht]
  | @malformed m started now ht hn hp task ht' =>
      exact .skipped m (by simp [TickWriter.Live, ht]) hn hp rfl rfl
  | @delivered m event started now ht hn hp w hw task ht' =>
      exact .joined m event (by simp [TickWriter.Live, ht]) hn hp rfl (by rw [hw]; rfl)
  | @unflushed reason backoff ht hstop =>
      cases reason with
      | idle | full =>
          refine .emptied rfl rfl fun hl => ?_
          simp [TickWriter.Live, TickWriter.unflushed, hstop] at hl
      | invalid m => exact hover rfl rfl
  | attempted ht hstop => exact .kept rfl rfl fun _ => by simp [TickWriter.Live, ht]
  | @inserted reason backoff rows inserted ht hr =>
      have hlive : s.writer.Live := by simp [TickWriter.Live, ht]
      rcases TickWriter.commitRest_batch { s.writer with insertedTicks := inserted } reason
        ((TickWriter.lastByPartition s.writer.batch).values.map ConsumedTick.message) with hb | hb
      · exact .kept hb rfl fun _ => hlive
      · exact .emptied hb rfl fun _ =>
          ⟨hlive, fun c hc => hasRow_insertTicks hr (List.mem_map_of_mem hc)⟩
  | insertRaised ht hr => exact .kept rfl rfl fun _ => by simp [TickWriter.Live, ht]
  | woken ht => exact .kept rfl rfl fun _ => by simp [TickWriter.Live, ht]
  | @committed m w hp =>
      have hstored := hI.stored (by simp [hp])
      rcases TickWriter.pendingCommit_cases hp with ⟨reason, rest, ht, rfl⟩ | ⟨ht, rfl⟩
      · have hlive : s.writer.Live := by simp [TickWriter.Live, ht]
        rcases s.writer.commitRest_batch reason rest with hb | hb
        · exact .kept hb rfl fun _ => hlive
        · exact .emptied hb rfl fun _ => ⟨hlive, hstored⟩
      · exact .emptied rfl rfl fun _ => ⟨by simp [TickWriter.Live, ht], hstored⟩
  | @commitRaised taken m w hp =>
      cases taken with
      | true => exact hover rfl rfl
      | false => exact hover rfl rfl
  | stop =>
      refine .kept rfl rfl fun hl => ?_
      cases ht : s.writer.task <;> simp_all [TickWriter.Live]
  | executed hr => exact .kept rfl rfl id

/-- Rows are only added. -/
theorem table_mono (hs : TickStorage.Stepped log parseEvent msToDatetime s a s' o) :
    ∀ key ∈ s.table.rows.map TickRow.key, key ∈ s'.table.rows.map TickRow.key := by
  have hinsert : ∀ rows, ∀ key ∈ s.table.rows.map TickRow.key,
      key ∈ (s.table.insertTicks rows).rows.map TickRow.key :=
    fun rows key hkey => MarketTicks.mem_insertTicks.mpr (Or.inl hkey)
  cases hs with
  | inserted ht hr => exact hinsert _
  | insertRaised ht hr =>
      rcases hr with rfl | ⟨rows, -, rfl⟩
      · exact fun _ => id
      · exact hinsert rows
  | executed hr => exact hinsert _
  | @commitRaised taken m w hp => cases taken <;> exact fun _ => id
  | _ => exact fun _ => id

omit [DecidableEq σ] [DecidableEq τ] in
/-- What is delivered now was delivered before, or is the very message that is delivered. -/
theorem Arranged.delivered_or (hA : Arranged log parseEvent msToDatetime s) (hl : s.writer.Live)
    {m : KafkaMessage ρ} (hn : s.IsNext log m)
    (hp : s'.position = s.position.set m.key (m.offset + 1)) {key : PartitionKey} {n : Nat}
    (hlt : n < s'.positionOf key) {e : MarketEventOf σ} (he : Valid log parseEvent key n e) :
    (HasRow msToDatetime s.table e ∨
      ∃ c ∈ s.writer.batch, c.message.key = key ∧ c.message.offset = n ∧ c.event = e) ∨
    m.key = key ∧ m.offset = n ∧ parseEvent m.value = some e := by
  obtain ⟨hle, hvalue, hskip⟩ := hn
  rw [TickStorage.positionOf, hp, Dict.get?_set] at hlt
  split at hlt
  · rename_i hkey
    subst hkey
    replace hlt : n < m.offset + 1 := hlt
    rcases lt_or_ge n (s.positionOf m.key) with hold | hge
    · exact Or.inl (hA.delivered hl m.key n hold e he)
    · obtain ⟨v, hlog, hparse⟩ := he
      rcases Nat.lt_succ_iff_lt_or_eq.mp hlt with hlt | rfl
      · cases (hskip n hlt hge).symm.trans hlog
      · obtain rfl := Option.some.inj (hvalue.symm.trans hlog)
        exact Or.inr ⟨rfl, rfl, hparse⟩
  · exact Or.inl (hA.delivered hl key n hlt e he)

/-- **The batch stays in the order of the log.** -/
theorem Arranged.step (hA : Arranged log parseEvent msToDatetime s)
    (hI : Safe log parseEvent msToDatetime s)
    (hs : TickStorage.Stepped log parseEvent msToDatetime s a s' o) :
    Arranged log parseEvent msToDatetime s' := by
  have hmono : ∀ {e}, HasRow msToDatetime s.table e → HasRow msToDatetime s'.table e :=
    fun h => h.mono (table_mono hs)
  have hpos : s'.position = s.position → ∀ key, s'.positionOf key = s.positionOf key :=
    fun hp key => by rw [TickStorage.positionOf, hp, TickStorage.positionOf]
  have hnone : s'.writer.batch = [] → (∀ c ∈ s'.writer.batch, Valid log parseEvent c.message.key
      c.message.offset c.event) ∧ s'.writer.batch.Pairwise fun c c' =>
        c.message.key = c'.message.key → c.message.offset < c'.message.offset := by
    intro hb
    rw [hb]
    exact ⟨fun c hc => absurd hc List.not_mem_nil, List.Pairwise.nil⟩
  cases hI.batchStep hs with
  | kept hb hp hl =>
      refine ⟨hb ▸ hA.valid, hb ▸ hA.sorted, fun hlive key n hn e he => ?_⟩
      rw [hb]
      exact (hA.delivered (hl hlive) key n (hpos hp key ▸ hn) e he).imp_left hmono
  | emptied hb hp hl =>
      refine ⟨(hnone hb).1, (hnone hb).2, fun hlive key n hn e he => Or.inl ?_⟩
      obtain ⟨hlive', hstored⟩ := hl hlive
      rcases hA.delivered hlive' key n (hpos hp key ▸ hn) e he with h | ⟨c, hc, -, -, rfl⟩
      · exact hmono h
      · exact hstored c hc
  | started hb hp =>
      refine ⟨(hnone hb).1, (hnone hb).2, fun hlive key n hn e he => Or.inl (hmono ?_)⟩
      rw [TickStorage.positionOf, hp] at hn
      cases hcom : s.committed.get? key with
      | none => simp [hcom] at hn
      | some p => exact hI.committed key p hcom n (by simpa [hcom] using hn) e he
  | joined m event hl hn hv hp hb =>
      refine ⟨fun c hc => ?_, ?_, fun _ key n hlt e he => ?_⟩
      · rw [hb] at hc
        rcases List.mem_append.mp hc with hc | hc
        · exact hA.valid c hc
        · obtain rfl := List.mem_singleton.mp hc
          exact ⟨m.value, hn.2.1, hv⟩
      · rw [hb, List.pairwise_append]
        refine ⟨hA.sorted, List.pairwise_singleton _ _, fun c hc c' hc' hkey => ?_⟩
        obtain rfl := List.mem_singleton.mp hc'
        have hkey' : c.message.key = m.key := hkey
        have hlt := hI.batch c hc
        rw [hkey'] at hlt
        exact hlt.trans_le hn.1
      · rw [hb]
        rcases hA.delivered_or hl hn hp hlt he with (h | ⟨c, hc, hcase⟩) | ⟨hkey, hoff, hparse⟩
        · exact Or.inl (hmono h)
        · exact Or.inr ⟨c, List.mem_append_left _ hc, hcase⟩
        · obtain rfl := Option.some.inj (hv.symm.trans hparse)
          exact Or.inr
            ⟨⟨event, m⟩, List.mem_append_right _ (List.mem_singleton_self _), hkey, hoff, rfl⟩
  | skipped m hl hn hv hp hb =>
      refine ⟨hb ▸ hA.valid, hb ▸ hA.sorted, fun _ key n hlt e he => ?_⟩
      rw [hb]
      rcases hA.delivered_or hl hn hp hlt he with h | ⟨-, -, hparse⟩
      · exact h.imp_left hmono
      · cases hv.symm.trans hparse

/-! ### The table -/

/-- Inserts the writer has given up on are inserts of its batch. -/
theorem abandoned_step (hs : s.step log parseEvent msToDatetime a = some (s', o))
    {rows : List (TickRow σ τ)} (hr : rows ∈ s'.abandoned) :
    rows ∈ s.abandoned ∨ s.writer.Live ∧ s.batchRows msToDatetime = some rows := by
  by_cases ha : ∃ effect, a = .insertRaised effect
  · obtain ⟨effect, rfl⟩ := ha
    simp only [TickStorage.step] at hs
    split at hs
    · rename_i reason backoff ht
      split at hs
      · obtain ⟨rfl, rfl⟩ := Machine.outcome hs
        exact Or.inl hr
      · obtain ⟨rfl, rfl⟩ := Machine.outcome hs
        exact Or.inl hr
      · rename_i rows' hrows
        obtain ⟨rfl, rfl⟩ := Machine.outcome hs
        rcases List.mem_cons.mp hr with rfl | hr
        · exact Or.inr ⟨by simp [TickWriter.Live, ht], hrows⟩
        · exact Or.inl hr
      · cases hs
    · cases hs
  · cases TickStorage.stepped hs with
    | @insertRaised effect => exact absurd ⟨effect, rfl⟩ ha
    | @commitRaised taken m w hp => cases taken <;> exact Or.inl hr
    | _ => exact Or.inl hr

/-- The table changes by an insert of the batch, or by one the writer has given up on. -/
theorem table_step (hs : TickStorage.Stepped log parseEvent msToDatetime s a s' o) :
    s'.table = s.table ∨ ∃ rows, s'.table = s.table.insertTicks rows ∧
      (rows ∈ s.abandoned ∨ s.writer.Live ∧ s.batchRows msToDatetime = some rows) := by
  cases hs with
  | inserted ht hr => exact Or.inr ⟨_, rfl, Or.inr ⟨by simp [TickWriter.Live, ht], hr⟩⟩
  | insertRaised ht hr =>
      rcases hr with rfl | ⟨rows, hrows, rfl⟩
      · exact Or.inl rfl
      · exact Or.inr ⟨rows, rfl, Or.inr ⟨by simp [TickWriter.Live, ht], hrows⟩⟩
  | executed hr => exact Or.inr ⟨_, rfl, Or.inl (List.mem_of_getElem? hr)⟩
  | @commitRaised taken m w hp => cases taken <;> exact Or.inl rfl
  | _ => exact Or.inl rfl

/-- Every row leads, and every insert still to come is ready. -/
structure Led (log : PartitionKey → Nat → Option ρ) (parseEvent : ρ → Option (MarketEventOf σ))
    (msToDatetime : Int → Option τ) (s : TickStorage ρ σ τ) : Prop where
  safe : Safe log parseEvent msToDatetime s
  arranged : Arranged log parseEvent msToDatetime s
  rows : ∀ r ∈ s.table.rows, Leads log parseEvent msToDatetime r
  abandoned : ∀ rows ∈ s.abandoned, Ready log parseEvent msToDatetime s.table rows

namespace Led

omit [DecidableEq ρ] [DecidableEq σ] [DecidableEq τ] in
theorem init : Led log parseEvent msToDatetime ({} : TickStorage ρ σ τ) where
  safe := .init
  arranged :=
    { valid := fun _ hc => absurd hc List.not_mem_nil
      sorted := List.Pairwise.nil
      delivered := fun hl => hl.elim }
  rows _ hr := absurd hr List.not_mem_nil
  abandoned _ hr := absurd hr List.not_mem_nil

theorem step (hI : Led log parseEvent msToDatetime s)
    (hs : s.step log parseEvent msToDatetime a = some (s', o)) :
    Led log parseEvent msToDatetime s' := by
  have hstep := TickStorage.stepped hs
  have hready : ∀ {rows},
      rows ∈ s.abandoned ∨ s.writer.Live ∧ s.batchRows msToDatetime = some rows →
      Ready log parseEvent msToDatetime s.table rows := by
    rintro rows (hr | ⟨hlive, hrows⟩)
    · exact hI.abandoned rows hr
    · exact hI.arranged.ready hI.safe hlive hrows
  refine ⟨hI.safe.step hs, hI.arranged.step hI.safe hstep, ?_, fun rows hr => ?_⟩
  · rcases table_step hstep with heq | ⟨rows, heq, hrows⟩
    · rw [heq]
      exact hI.rows
    · rw [heq]
      exact (hready hrows).insertTicks hI.rows
  · exact (hready (abandoned_step hs hr)).mono (table_mono hstep)

theorem run {acts : List (WriterAct ρ)} {h : List (WriterObs ρ σ)}
    (hr : Machine.run (TickStorage.step log parseEvent msToDatetime) {} acts = some (s, h)) :
    Led log parseEvent msToDatetime s :=
  Machine.run_preserves (fun _ _ _ _ hI hs => hI.step hs) .init hr

end Led

/-- **The first record wins.** After any run over any number of lives of the writer, with inserts
that take effect without its knowing and at any later time: every row of the table is that of a
valid record before which its partition has no valid record with the same key. -/
theorem first_record_kept {acts : List (WriterAct ρ)} {h : List (WriterObs ρ σ)}
    (hr : Machine.run (TickStorage.step log parseEvent msToDatetime) {} acts = some (s, h))
    {r : TickRow σ τ} (hrow : r ∈ s.table.rows) :
    ∃ key n, (∃ e, Valid log parseEvent key n e ∧ eventToRow msToDatetime e = some r) ∧
      ∀ m < n, ∀ e' r', Valid log parseEvent key m e' → eventToRow msToDatetime e' = some r' →
        r'.key ≠ r.key := by
  obtain ⟨key, n, hat, hfirst⟩ := (Led.run hr).rows r hrow
  exact ⟨key, n, hat, fun m hm e' r' he' hr' => hfirst m hm r' ⟨e', he', hr'⟩⟩

end Steps

/-- A quote, and another one with the same key and a different price. -/
def contradictingTopic (key : PartitionKey) (n : Nat) : Option (Option MarketEvent) :=
  if key = ("market-events", 0) then
    [some (.quote "A" 7), some { MarketEventOf.quote "A" 7 with bid := .finite 99 }][n]?
  else none

/-- The first life gives up on its insert and crashes. The second one inserts both quotes and
commits them, and then the insert of the first life takes effect. -/
def lateInsertActs : List (WriterAct (Option MarketEvent)) :=
  [.start 1 100, .schema true, .check,
    .poll (.message ⟨"market-events", 0, 0, some (.quote "A" 7)⟩) 0 0, .checkFlush,
    .insertRaised .later, .crash,
    .start 2 100, .schema true, .check,
    .poll (.message ⟨"market-events", 0, 0, some (.quote "A" 7)⟩) 0 0, .check,
    .poll (.message ⟨"market-events", 0, 1,
      some { MarketEventOf.quote "A" 7 with bid := .finite 99 }⟩) 0 0,
    .checkFlush, .inserted, .committed, .execute 0]

theorem first_record_kept_late :
    ∃ s h, Machine.run (TickStorage.step contradictingTopic id (some : Int → Option Int)) {}
        lateInsertActs = some (s, h) ∧
      s.table.rows = [⟨7, "A", 7, .finite 100, .finite 101, 1, 1⟩] ∧
      ∃ key n, (∃ e, Valid contradictingTopic id key n e ∧
          eventToRow (some : Int → Option Int) e =
            some ⟨7, "A", 7, .finite 100, .finite 101, 1, 1⟩) ∧
        ∀ m < n, ∀ e' r', Valid contradictingTopic id key m e' →
          eventToRow (some : Int → Option Int) e' = some r' →
          r'.key ≠ TickRow.key ⟨7, ("A" : PyStr), 7, .finite 100, .finite 101, 1, 1⟩ := by
  have hrun : (Machine.run (TickStorage.step contradictingTopic id (some : Int → Option Int)) {}
    lateInsertActs).map (fun r => r.1.table.rows) =
      some [⟨7, "A", 7, .finite 100, .finite 101, 1, 1⟩] := by decide +kernel
  obtain ⟨⟨s, h⟩, hr, hrows⟩ := Option.map_eq_some_iff.mp hrun
  exact ⟨s, h, hr, hrows, first_record_kept hr (hrows ▸ List.mem_singleton_self _)⟩

end MarketData.Storage
