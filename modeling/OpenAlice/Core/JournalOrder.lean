import Mathlib.Data.List.Nodup
import Mathlib.Data.List.Perm.Basic
import Mathlib.Logic.Function.Basic
import Mathlib.Order.Basic
import OpenAlice.Core.EventLog

/-!
# The order of the journal

The number a session starts from is that of the last entry of the file, and a line is put
behind whatever the file ends in.  Two things can therefore go wrong.  When the lines of
concurrent appends reach the file in another order than their numbers, the last entry is not
the one with the largest number, and the next session hands a number out again.  When a crash
leaves part of a line, the next line becomes part of it, and is lost with it.  `orderedStep`
is the condition that neither happens.
-/

namespace OpenAlice.Core

open OpenAlice.Data OpenAlice.Run

universe u

variable {J : Type u} {codec : EntryCodec J} {V V' : Journal J}

/-! ## What should hold -/

/-- What a state of the journal and a later one have to do with each other. -/
structure Kept (codec : EntryCodec J) (V V' : Journal J) : Prop where
  /-- Every append that has resolved is read. -/
  durable : ∀ entry ∈ V.resolved, entry ∈ read codec V'.file
  unique : ∀ opts opts', ∀ entry ∈ read codec V.file opts, ∀ entry' ∈ read codec V'.file opts',
    entry.seq = entry'.seq → entry = entry'
  once : ∀ opts, ((read codec V.file opts).map EventLogEntry.seq).Nodup
  counter : V.session = none → ∀ bufferSize, ∀ entry ∈ entriesOf codec V.file,
    entry.seq ≤ (recoverState codec V.file bufferSize).seq

/-! ## The condition on the steps -/

def LargestLast (entries : List (EventLogEntry J)) : Prop :=
  ∀ last, entries.getLast? = some last → ∀ entry ∈ entries, entry.seq ≤ last.seq

/-- The entries a session has put into the file, with the one of which a crash leaves `length`
characters. -/
def landedWith (codec : EntryCodec J) (s : Session J) (entry : EventLogEntry J) (length : Nat) :
    List (EventLogEntry J) :=
  s.landed ++ if (codec.stringify entry).length ≤ length then [entry] else []

/-- **The lines come in order**: what is put into the file finds it empty or at the end of a
line, and when a session ends, the last of its lines in the file is that of its largest number
there. -/
def orderedStep (codec : EntryCodec J) (V : Journal J) : JournalEvent J → Prop
  | .land _ => Complete '\n' V.file
  | .exit => ∀ s, V.session = some s → LargestLast s.landed
  | .crash n length => ∀ s entry, V.session = some s → s.pending[n]? = some entry →
      (0 < length → Complete '\n' V.file) ∧ LargestLast (landedWith codec s entry length)
  | _ => True

/-! ## What a crash leaves -/

/-- **A torn line** is an entry when it lacks at most its line feed, and nothing otherwise. -/
theorem entriesOf_torn {file : List Char} (h : Complete '\n' file) (entry : EventLogEntry J)
    (length : Nat) :
    entriesOf codec (file ++ (lineOf codec entry).take length) =
      entriesOf codec file ++ if (codec.stringify entry).length ≤ length then [entry] else [] := by
  rcases lt_trichotomy length (codec.stringify entry).length with hlt | heq | hgt
  · have htake : (lineOf codec entry).take length = (codec.stringify entry).take length :=
      List.take_append_of_le_length hlt.le
    have hne : (codec.stringify entry).take length ≠ codec.stringify entry := by
      intro hself
      have hlength := congrArg List.length hself
      rw [List.length_take] at hlength
      omega
    have hnewline : '\n' ∉ (codec.stringify entry).take length := fun hmem ↦
      codec.newline_notMem entry (List.mem_of_mem_take hmem)
    rw [if_neg (not_le.mpr hlt), htake, entriesOf, decodeLines_append parseLine_nil h,
      decodeLines_of_notMem hnewline, parseLine_torn (List.take_prefix _ _) hne]
    rfl
  · have htake : (lineOf codec entry).take length = codec.stringify entry := by
      rw [lineOf, heq, List.take_left]
    rw [if_pos heq.ge, htake, entriesOf, decodeLines_append parseLine_nil h,
      decodeLines_of_notMem (codec.newline_notMem entry), parseLine_stringify]
    rfl
  · have htake : (lineOf codec entry).take length = lineOf codec entry :=
      List.take_of_length_le (by rw [lineOf, List.length_append]; exact hgt)
    rw [if_pos hgt.le, htake, entriesOf_line h]

/-! ## The invariant -/

/-- The numbers of an open session, whose entries are behind `old` in the file. -/
structure Numbered (old : List (EventLogEntry J)) (s : Session J) : Prop where
  /-- The session has started from `base`. -/
  above : ∃ base, base ≤ s.seq ∧ (∀ entry ∈ old, entry.seq ≤ base) ∧
    ∀ entry ∈ s.landed ++ s.pending, base < entry.seq ∧ entry.seq ≤ s.seq
  nodup : ((s.landed ++ s.pending).map EventLogEntry.seq).Nodup
  /-- An append resumes when its line is in the file. -/
  written : ∀ entry ∈ s.written, entry ∈ s.landed
  largest : LargestLast old

/-- **The invariant of the journal.** -/
structure Sound (codec : EntryCodec J) (V : Journal J) : Prop where
  positive : ∀ entry ∈ entriesOf codec V.file, 0 < entry.seq
  nodup : ((entriesOf codec V.file).map EventLogEntry.seq).Nodup
  resolved : ∀ entry ∈ V.resolved, entry ∈ entriesOf codec V.file
  opened : ∀ s, V.session = some s →
    ∃ old, entriesOf codec V.file = old ++ s.landed ∧ Numbered old s
  closed : V.session = none → LargestLast (entriesOf codec V.file)

theorem largestLast_append {old new : List (EventLogEntry J)} (hold : LargestLast old)
    (hnew : LargestLast new) (hlt : ∀ entry ∈ old, ∀ entry' ∈ new, entry.seq < entry'.seq) :
    LargestLast (old ++ new) := by
  intro last hlast entry hentry
  rw [List.getLast?_append] at hlast
  cases hnewLast : new.getLast? with
  | none =>
    obtain rfl := List.getLast?_eq_none_iff.mp hnewLast
    rw [List.append_nil] at hentry
    exact hold last hlast entry hentry
  | some last' =>
    rw [hnewLast] at hlast
    cases hlast
    rcases List.mem_append.mp hentry with hentry | hentry
    · exact (hlt entry hentry last (List.mem_of_getLast? hnewLast)).le
    · exact hnew last hnewLast entry hentry

variable {old : List (EventLogEntry J)} {s : Session J}

theorem Numbered.lt (h : Numbered old s) :
    ∀ entry ∈ old, ∀ entry' ∈ s.landed ++ s.pending, entry.seq < entry'.seq := by
  obtain ⟨base, -, hold, hnew⟩ := h.above
  intro entry hentry entry' hentry'
  exact (hold entry hentry).trans_lt (hnew entry' hentry').1

variable {entry : EventLogEntry J}

theorem perm_land {n : Nat} (h : s.pending[n]? = some entry) :
    (s.landed ++ [entry] ++ s.pending.eraseIdx n).Perm (s.landed ++ s.pending) := by
  obtain ⟨hn, rfl⟩ := List.getElem?_eq_some_iff.mp h
  rw [List.append_assoc]
  exact (List.getElem_cons_eraseIdx_perm hn).append_left s.landed

/-! ## One step -/

theorem Numbered.append (h : Numbered old s) (hseq : entry.seq = s.seq + 1) :
    Numbered old { s with seq := s.seq + 1, pending := s.pending ++ [entry] } := by
  obtain ⟨⟨base, hbase, hold, hnew⟩, hnodup, hwritten, hlargest⟩ := h
  refine ⟨⟨base, Nat.le_succ_of_le hbase, hold, fun e he ↦ ?_⟩, ?_, hwritten, hlargest⟩
  · rw [← List.append_assoc] at he
    rcases List.mem_append.mp he with he | he
    · exact ⟨(hnew e he).1, Nat.le_succ_of_le (hnew e he).2⟩
    · rw [List.mem_singleton.mp he, hseq]
      exact ⟨Nat.lt_succ_of_le hbase, le_rfl⟩
  · rw [← List.append_assoc, List.map_append, List.nodup_append]
    refine ⟨hnodup, List.pairwise_singleton _ _, fun a ha b hb ↦ ?_⟩
    obtain ⟨e, he, rfl⟩ := List.mem_map.mp ha
    obtain rfl := List.mem_singleton.mp hb
    have hle := (hnew e he).2
    omega

theorem Numbered.land (h : Numbered old s) {n : Nat} (hn : s.pending[n]? = some entry) :
    Numbered old { s with
      pending := s.pending.eraseIdx n
      written := s.written ++ [entry]
      landed := s.landed ++ [entry] } := by
  obtain ⟨⟨base, hbase, hold, hnew⟩, hnodup, hwritten, hlargest⟩ := h
  refine ⟨⟨base, hbase, hold, fun e he ↦ hnew e ((perm_land hn).subset he)⟩, ?_, ?_, hlargest⟩
  · exact ((perm_land hn).map _).nodup_iff.mpr hnodup
  intro e he
  rcases List.mem_append.mp he with he | he
  · exact List.mem_append_left _ (hwritten e he)
  · exact List.mem_append_right _ he

theorem Numbered.resolve (h : Numbered old s) (n : Nat) (buffer : List (EventLogEntry J)) :
    Numbered old { s with written := s.written.eraseIdx n, buffer } :=
  ⟨h.above, h.nodup, fun e he ↦ h.written e (List.mem_of_mem_eraseIdx he), h.largest⟩

theorem Sound.close (h : Sound codec V) (hs : V.session = some s)
    (file : List Char) (left : List (EventLogEntry J))
    (hfile : entriesOf codec file = entriesOf codec V.file ++ left)
    (hleft : ∀ entry ∈ left, entry ∈ s.landed ++ s.pending)
    (hnodup : ((s.landed ++ left).map EventLogEntry.seq).Nodup)
    (hlargest : LargestLast (s.landed ++ left)) :
    Sound codec { V with file, session := none } := by
  obtain ⟨old, hold, hnum⟩ := h.opened s hs
  have hlt : ∀ e ∈ old, ∀ e' ∈ s.landed ++ left, e.seq < e'.seq := by
    intro e he e' he'
    rcases List.mem_append.mp he' with he' | he'
    · exact hnum.lt e he e' (List.mem_append_left _ he')
    · exact hnum.lt e he e' (hleft e' he')
  have hsplit : entriesOf codec file = old ++ (s.landed ++ left) := by
    rw [hfile, hold, List.append_assoc]
  refine ⟨?_, ?_, ?_, nofun, fun _ ↦ ?_⟩
  · intro e he
    rw [hfile] at he
    rcases List.mem_append.mp he with he | he
    · exact h.positive e he
    · obtain ⟨base, -, -, habove⟩ := hnum.above
      exact (Nat.zero_le base).trans_lt (habove e (hleft e he)).1
  · rw [hsplit, List.map_append, List.nodup_append]
    refine ⟨?_, hnodup, ?_⟩
    · have hbefore := h.nodup
      rw [hold, List.map_append] at hbefore
      exact (List.nodup_append.mp hbefore).1
    rintro a ha b hb rfl
    obtain ⟨e, he, rfl⟩ := List.mem_map.mp ha
    obtain ⟨e', he', heq⟩ := List.mem_map.mp hb
    exact (hlt e he e' he').ne heq.symm
  · intro e he
    exact hfile ▸ List.mem_append_left _ (h.resolved e he)
  · rw [hsplit]
    exact largestLast_append hnum.largest hlargest hlt

theorem Numbered.nodup_land (h : Numbered old s) {n : Nat} (hn : s.pending[n]? = some entry) :
    ((s.landed ++ [entry]).map EventLogEntry.seq).Nodup := by
  have hall := ((perm_land hn).map EventLogEntry.seq).nodup_iff.mpr h.nodup
  rw [List.map_append] at hall
  exact (List.nodup_append.mp hall).1

theorem Sound.land (h : Sound codec V) (hs : V.session = some s) {n : Nat}
    (hn : s.pending[n]? = some entry) (hcomplete : Complete '\n' V.file) :
    Sound codec { V with
      file := V.file ++ lineOf codec entry
      session := some { s with
        pending := s.pending.eraseIdx n
        written := s.written ++ [entry]
        landed := s.landed ++ [entry] } } := by
  obtain ⟨old, hold, hnum⟩ := h.opened s hs
  have hfile : entriesOf codec (V.file ++ lineOf codec entry) = entriesOf codec V.file ++ [entry] :=
    entriesOf_line hcomplete entry
  have hpending : entry ∈ s.landed ++ s.pending := List.mem_append_right _ (List.mem_of_getElem? hn)
  have hnew : ∀ e ∈ entriesOf codec V.file, e.seq ≠ entry.seq := by
    intro e he heq
    rw [hold] at he
    rcases List.mem_append.mp he with he | he
    · exact (hnum.lt e he entry hpending).ne heq
    have hdistinct := hnum.nodup_land hn
    rw [List.map_append, List.nodup_append] at hdistinct
    exact hdistinct.2.2 _ (List.mem_map_of_mem he) _ (List.mem_singleton_self _) heq
  refine ⟨?_, ?_, ?_, ?_, nofun⟩
  · intro e he
    rw [hfile] at he
    rcases List.mem_append.mp he with he | he
    · exact h.positive e he
    obtain ⟨base, -, -, habove⟩ := hnum.above
    rw [List.mem_singleton.mp he]
    exact (Nat.zero_le base).trans_lt (habove entry hpending).1
  · rw [hfile, List.map_append, List.nodup_append]
    refine ⟨h.nodup, List.pairwise_singleton _ _, ?_⟩
    intro a ha b hb heq
    obtain ⟨e, he, rfl⟩ := List.mem_map.mp ha
    exact hnew e he (heq.trans (List.mem_singleton.mp hb))
  · intro e he
    exact hfile ▸ List.mem_append_left _ (h.resolved e he)
  · intro s' hs'
    cases hs'
    exact ⟨old, by rw [hfile, hold, List.append_assoc], hnum.land hn⟩

theorem Sound.step {e : JournalEvent J} (h : Sound codec V) (hok : orderedStep codec V e)
    (hstep : V.step codec e = some V') : Sound codec V' := by
  cases e with
  | create bufferSize =>
    rw [Journal.step] at hstep
    cases hs : V.session with
    | some s =>
      rw [hs] at hstep
      exact nomatch hstep
    | none =>
      simp only [hs] at hstep
      cases hstep
      refine ⟨h.positive, h.nodup, h.resolved, fun s hs' ↦ ?_, nofun⟩
      cases hs'
      have hlargest := h.closed hs
      refine ⟨entriesOf codec V.file, (List.append_nil _).symm, ⟨_, le_rfl, ?_, nofun⟩,
        List.Pairwise.nil, nofun, hlargest⟩
      intro entry hentry
      rw [recoverState_seq]
      cases hlast : (entriesOf codec V.file).getLast? with
      | none => exact nomatch List.getLast?_eq_none_iff.mp hlast ▸ hentry
      | some last => exact hlargest last hlast entry hentry
  | append ts type payload causedBy =>
    obtain ⟨s, hs, rfl⟩ := Option.map_eq_some_iff.mp hstep
    refine ⟨h.positive, h.nodup, h.resolved, fun s' hs' ↦ ?_, nofun⟩
    cases hs'
    obtain ⟨old, hold, hnum⟩ := h.opened s hs
    exact ⟨old, hold, hnum.append rfl⟩
  | land n =>
    obtain ⟨s, hs, hstep⟩ := Option.bind_eq_some_iff.mp hstep
    obtain ⟨entry, hn, rfl⟩ := Option.map_eq_some_iff.mp hstep
    exact h.land hs hn hok
  | resolve n =>
    obtain ⟨s, hs, hstep⟩ := Option.bind_eq_some_iff.mp hstep
    obtain ⟨entry, hn, rfl⟩ := Option.map_eq_some_iff.mp hstep
    obtain ⟨old, hold, hnum⟩ := h.opened s hs
    refine ⟨h.positive, h.nodup, ?_, fun s' hs' ↦ ?_, nofun⟩
    · intro e he
      rcases List.mem_append.mp he with he | he
      · exact h.resolved e he
      · rw [List.mem_singleton.mp he, hold]
        exact List.mem_append_right _ (hnum.written entry (List.mem_of_getElem? hn))
    · cases hs'
      exact ⟨old, hold, hnum.resolve n _⟩
  | exit =>
    obtain ⟨s, hs, rfl⟩ := Option.map_eq_some_iff.mp hstep
    obtain ⟨old, -, hnum⟩ := h.opened s hs
    refine h.close hs V.file [] (List.append_nil _).symm nofun ?_ ?_
    · rw [List.append_nil]
      have hall := hnum.nodup
      rw [List.map_append] at hall
      exact (List.nodup_append.mp hall).1
    · rw [List.append_nil]
      exact hok s hs
  | crash n length =>
    obtain ⟨s, hs, hstep⟩ := Option.bind_eq_some_iff.mp hstep
    obtain ⟨entry, hn, rfl⟩ := Option.map_eq_some_iff.mp hstep
    obtain ⟨hcomplete, hlargest⟩ := hok s entry hs hn
    obtain ⟨old, -, hnum⟩ := h.opened s hs
    have hfile : entriesOf codec (V.file ++ (lineOf codec entry).take length) =
        entriesOf codec V.file ++
          if (codec.stringify entry).length ≤ length then [entry] else [] := by
      rcases Nat.eq_zero_or_pos length with rfl | hpos
      · have hlong : ¬ (codec.stringify entry).length ≤ 0 := by
          have hne : codec.stringify entry ≠ [] := fun hnil ↦
            trim_stringify (J := J) entry (by rw [hnil]; rfl)
          have hpos := List.length_pos_iff.mpr hne
          omega
        rw [if_neg hlong, List.take_zero, List.append_nil, List.append_nil]
      · exact entriesOf_torn (hcomplete hpos) entry length
    refine h.close hs _ _ hfile ?_ ?_ hlargest
    · intro e he
      split_ifs at he
      · rw [List.mem_singleton.mp he]
        exact List.mem_append_right _ (List.mem_of_getElem? hn)
      · exact nomatch he
    · have hall := hnum.nodup_land hn
      split_ifs
      · exact hall
      rw [List.append_nil]
      rw [List.map_append] at hall
      exact (List.nodup_append.mp hall).1

/-! ## Every run -/

theorem entriesOf_grows {e : JournalEvent J} (hok : orderedStep codec V e)
    (hstep : V.step codec e = some V') : entriesOf codec V.file <+: entriesOf codec V'.file := by
  cases e with
  | create bufferSize =>
    rw [Journal.step] at hstep
    cases hs : V.session with
    | some s =>
      rw [hs] at hstep
      exact nomatch hstep
    | none =>
      simp only [hs] at hstep
      cases hstep
      exact List.prefix_refl _
  | append ts type payload causedBy =>
    obtain ⟨s, hs, rfl⟩ := Option.map_eq_some_iff.mp hstep
    exact List.prefix_refl _
  | land n =>
    obtain ⟨s, hs, hstep⟩ := Option.bind_eq_some_iff.mp hstep
    obtain ⟨entry, hn, rfl⟩ := Option.map_eq_some_iff.mp hstep
    exact entriesOf_line hok entry ▸ List.prefix_append _ _
  | resolve n =>
    obtain ⟨s, hs, hstep⟩ := Option.bind_eq_some_iff.mp hstep
    obtain ⟨entry, hn, rfl⟩ := Option.map_eq_some_iff.mp hstep
    exact List.prefix_refl _
  | exit =>
    obtain ⟨s, hs, rfl⟩ := Option.map_eq_some_iff.mp hstep
    exact List.prefix_refl _
  | crash n length =>
    obtain ⟨s, hs, hstep⟩ := Option.bind_eq_some_iff.mp hstep
    obtain ⟨entry, hn, rfl⟩ := Option.map_eq_some_iff.mp hstep
    rcases Nat.eq_zero_or_pos length with rfl | hpos
    · simp only [List.take_zero, List.append_nil]
      exact List.prefix_refl _
    · exact entriesOf_torn ((hok s entry hs hn).1 hpos) entry length ▸ List.prefix_append _ _

theorem sound_nil : Sound codec ({} : Journal J) where
  positive := nofun
  nodup := List.Pairwise.nil
  resolved := nofun
  opened := nofun
  closed _ := nofun

theorem sound_of_reach (h : Reach (Journal.step codec) (orderedStep codec) {} V) : Sound codec V :=
  h.invariant sound_nil fun _ _ _ hI hok hstep ↦ hI.step hok hstep

theorem grows_of_reach (h : Reach (Journal.step codec) (orderedStep codec) V V') :
    entriesOf codec V.file <+: entriesOf codec V'.file :=
  h.invariant (I := fun U ↦ entriesOf codec V.file <+: entriesOf codec U.file) (List.prefix_refl _)
    fun _ _ _ hI hok hstep ↦ hI.trans (entriesOf_grows hok hstep)

/-- **The journal is durable and its numbers are unique** in every run the lines of which come
in order: for any state of it and any later one. -/
theorem journal_kept (h : Reach (Journal.step codec) (orderedStep codec) {} V)
    (h' : Reach (Journal.step codec) (orderedStep codec) V V') : Kept codec V V' := by
  have hV := sound_of_reach h
  have hV' := sound_of_reach (h.trans h')
  have hsubset := (grows_of_reach h').subset
  refine ⟨?_, ?_, ?_, ?_⟩
  · intro entry hentry
    have hmem := hsubset (hV.resolved entry hentry)
    rw [read_eq, List.mem_filter, decide_eq_true_eq]
    exact ⟨hmem, hV'.positive entry hmem⟩
  · intro opts opts' entry hentry entry' hentry' hseq
    exact List.inj_on_of_nodup_map hV'.nodup (hsubset ((read_sublist _ opts).subset hentry))
      ((read_sublist _ opts').subset hentry') hseq
  · intro opts
    exact hV.nodup.sublist ((read_sublist _ opts).map _)
  · intro hclosed bufferSize entry hentry
    rw [recoverState_seq]
    cases hlast : (entriesOf codec V.file).getLast? with
    | none => exact nomatch List.getLast?_eq_none_iff.mp hlast ▸ hentry
    | some last => exact hV.closed hclosed last hlast entry hentry

/-! ## Runs to evaluate -/

theorem append_sep_inj {α : Type u} {sep : α} {a a' b b' : List α} (ha : sep ∉ a) (ha' : sep ∉ a')
    (h : a ++ sep :: b = a' ++ sep :: b') : a = a' ∧ b = b' := by
  induction a generalizing a' with
  | nil =>
    cases a' with
    | nil => exact ⟨rfl, (List.cons.inj h).2⟩
    | cons x a' => exact (ha' ((List.cons.inj h).1 ▸ List.mem_cons_self)).elim
  | cons x a ih =>
    rw [List.mem_cons, not_or] at ha
    cases a' with
    | nil => exact (ha.1 (List.cons.inj h).1.symm).elim
    | cons x' a' =>
      rw [List.mem_cons, not_or] at ha'
      obtain ⟨rfl, hrest⟩ := List.cons.inj h
      obtain ⟨rfl, rfl⟩ := ih ha.2 ha'.2 hrest
      exact ⟨rfl, rfl⟩

/-- An event type in a JSON string.  Letters, digits and dots stand for themselves; how the
other characters are escaped does not matter here. -/
def escapeType : List Char → List Char
  | [] => []
  | c :: cs =>
    if c.isAlphanum ∨ c = '.' then c :: escapeType cs
    else '\\' :: (Nat.toDigits 10 c.toNat ++ ';' :: escapeType cs)

def causedByText : Option Nat → List Char
  | none => []
  | some n => ",\"causedBy\":".toList ++ Nat.toDigits 10 n

/-- The members of an entry with the payload `null`. -/
def membersText (entry : EventLogEntry Unit) : List Char :=
  "\"seq\":".toList ++ (Nat.toDigits 10 entry.seq ++ ',' :: ("\"ts\":".toList ++
    (Nat.toDigits 10 entry.ts ++ ',' :: ("\"type\":\"".toList ++
      (escapeType entry.type.toList ++ '"' :: (",\"payload\":null".toList ++
        causedByText entry.causedBy))))))

/-- An entry with the payload `null`. -/
def sampleText (entry : EventLogEntry Unit) : List Char :=
  '\x7b' :: (membersText entry ++ ['\x7d'])

theorem notMem_digits {c : Char} (hc : c.isDigit = false) (n : Nat) : c ∉ Nat.toDigits 10 n :=
  fun hmem ↦ Bool.eq_false_iff.mp hc (Nat.isDigit_of_mem_toDigits (by decide) le_rfl hmem)

theorem digits_injective : Function.Injective (Nat.toDigits 10) := by
  intro m n h
  have hm := Nat.ofDigitChars_ten_toDigits (n := m)
  rw [h, Nat.ofDigitChars_ten_toDigits] at hm
  exact hm.symm

theorem escapeType_injective : Function.Injective escapeType := by
  intro cs
  induction cs with
  | nil =>
    rintro (_ | ⟨c, cs'⟩) h
    · rfl
    · rw [escapeType, escapeType] at h
      split_ifs at h
  | cons c cs ih =>
    rintro (_ | ⟨c', cs'⟩) h
    · rw [escapeType, escapeType] at h
      split_ifs at h
    rw [escapeType, escapeType] at h
    split_ifs at h with hc hc' hc'
    · obtain ⟨rfl, hrest⟩ := List.cons.inj h
      rw [ih hrest]
    · obtain ⟨rfl, -⟩ := List.cons.inj h
      exact absurd hc (by decide)
    · obtain ⟨rfl, -⟩ := List.cons.inj h
      exact absurd hc' (by decide)
    · have hsemi : ∀ n, ';' ∉ Nat.toDigits 10 n := notMem_digits rfl
      obtain ⟨hdigits, hrest⟩ := append_sep_inj (hsemi _) (hsemi _) (List.cons.inj h).2
      rw [ih hrest, Char.toNat_inj.mp (digits_injective hdigits)]

def typeChar (c : Char) : Bool := c.isAlphanum || ".\\;".toList.contains c

def memberChar (c : Char) : Bool := typeChar c || "\",:".toList.contains c

theorem typeChar_digits {c : Char} {n : Nat} (h : c ∈ Nat.toDigits 10 n) : typeChar c = true := by
  have hdigit := Nat.isDigit_of_mem_toDigits (by decide) le_rfl h
  rw [typeChar, Char.isAlphanum, hdigit, Bool.or_true, Bool.true_or]

theorem typeChar_escapeType {c : Char} {cs : List Char} (h : c ∈ escapeType cs) :
    typeChar c = true := by
  induction cs with
  | nil => exact nomatch h
  | cons c' cs ih =>
    rw [escapeType] at h
    split_ifs at h with hc'
    · rcases List.mem_cons.mp h with rfl | h
      · rcases hc' with hc' | rfl
        · rw [typeChar, hc', Bool.true_or]
        · decide
      · exact ih h
    · rcases List.mem_cons.mp h with rfl | h
      · decide
      rcases List.mem_append.mp h with h | h
      · exact typeChar_digits h
      rcases List.mem_cons.mp h with rfl | h
      · decide
      · exact ih h

theorem memberChar_of_typeChar {c : Char} (h : typeChar c = true) : memberChar c = true := by
  rw [memberChar, h, Bool.true_or]

theorem memberChar_membersText {c : Char} {entry : EventLogEntry Unit}
    (h : c ∈ membersText entry) : memberChar c = true := by
  have hliteral : (["\"seq\":", "\"ts\":", "\"type\":\"", ",\"payload\":null",
      ",\"causedBy\":"].all fun literal ↦ literal.toList.all memberChar) = true := by
    decide +kernel
  simp only [List.all_cons, List.all_nil, Bool.and_true, Bool.and_eq_true, List.all_eq_true]
    at hliteral
  obtain ⟨hseq, hts, htype, hpayload, hcaused⟩ := hliteral
  have hcausedBy : c ∈ causedByText entry.causedBy → memberChar c = true := by
    cases entry.causedBy with
    | none => exact nofun
    | some n =>
      intro h
      rcases List.mem_append.mp h with h | h
      · exact hcaused c h
      · exact memberChar_of_typeChar (typeChar_digits h)
  delta membersText at h
  simp only [List.mem_append, List.mem_cons] at h
  rcases h with h | h | rfl | h | h | rfl | h | h | rfl | h | h
  · exact hseq c h
  · exact memberChar_of_typeChar (typeChar_digits h)
  · decide
  · exact hts c h
  · exact memberChar_of_typeChar (typeChar_digits h)
  · decide
  · exact htype c h
  · exact memberChar_of_typeChar (typeChar_escapeType h)
  · decide
  · exact hpayload c h
  · exact hcausedBy h

theorem causedByText_injective : Function.Injective causedByText := by
  rintro (_ | m) (_ | n) h
  · rfl
  · exact nomatch List.append_eq_nil_iff.mp h.symm
  · exact nomatch List.append_eq_nil_iff.mp h
  · rw [digits_injective (List.append_cancel_left h)]

theorem membersText_injective : Function.Injective membersText := by
  rintro ⟨seq, ts, type, payload, causedBy⟩ ⟨seq', ts', type', payload', causedBy'⟩ h
  have hcomma : ∀ n, ',' ∉ Nat.toDigits 10 n := notMem_digits rfl
  obtain ⟨hseq, h⟩ := append_sep_inj (hcomma _) (hcomma _) (List.append_cancel_left h)
  obtain ⟨hts, h⟩ := append_sep_inj (hcomma _) (hcomma _) (List.append_cancel_left h)
  have hquote : ∀ cs, '"' ∉ escapeType cs := fun _ hmem ↦
    absurd (typeChar_escapeType hmem) (by decide)
  obtain ⟨htype, h⟩ := append_sep_inj (hquote _) (hquote _) (List.append_cancel_left h)
  cases digits_injective hseq
  cases digits_injective hts
  cases String.toList_injective (escapeType_injective htype)
  cases causedByText_injective (List.append_cancel_left h)
  rfl

theorem sampleText_injective : Function.Injective sampleText := fun _ _ h ↦
  membersText_injective (List.append_cancel_right (List.cons.inj h).2)

theorem closing_notMem {entry : EventLogEntry Unit} {torn : List Char}
    (h : torn <+: sampleText entry) (hne : torn ≠ sampleText entry) : '\x7d' ∉ torn := by
  intro hmem
  have hstart : torn <+: '\x7b' :: membersText entry := by
    rw [sampleText, ← List.cons_append] at h hne
    exact (List.prefix_concat_iff.mp h).resolve_left hne
  rcases List.mem_cons.mp (hstart.subset hmem) with h | h
  · exact absurd h (by decide)
  · exact absurd (memberChar_membersText h) (by decide)

/-- JSON of entries with the payload `null`. -/
noncomputable def sampleCodec : EntryCodec Unit where
  stringify := sampleText
  parse := Function.partialInv sampleText
  parse_stringify entry := Function.partialInv_left sampleText_injective entry
  head_stringify _ := rfl
  newline_notMem entry hmem := by
    rcases List.mem_cons.mp hmem with h | h
    · exact absurd h (by decide)
    rcases List.mem_append.mp h with h | h
    · exact absurd (memberChar_membersText h) (by decide)
    · exact absurd (List.mem_singleton.mp h) (by decide)
  parse_torn entry torn hstart hne := by
    cases hparse : Function.partialInv sampleText torn with
    | none => rfl
    | some entry' =>
      have htext : sampleText entry' = torn := (sampleText_injective.isPartialInv _ _).mp hparse
      have hclosing : '\x7d' ∈ sampleText entry' := by simp [sampleText]
      exact (closing_notMem hstart hne (htext ▸ hclosing)).elim

def tick (type : String) : JournalEvent Unit := .append 0 type () none

def inOrder : List (JournalEvent Unit) :=
  [.create 500, tick "a", tick "b", .land 0, .resolve 0, .land 0, .resolve 0, .exit]

/-- Both are read. -/
theorem journal_kept_inOrder : ∃ V : Journal Unit,
    V.resolved.map EventLogEntry.seq = [1, 2] ∧ Kept sampleCodec V V := by
  refine ⟨after (Journal.step sampleCodec) {} inOrder, rfl, journal_kept ?_ .refl⟩
  refine .of_after inOrder rfl fun n e he ↦ ?_
  match n, he with
  | 0, he | 1, he | 2, he | 4, he | 6, he =>
    cases he
    trivial
  | 3, he =>
    cases he
    exact complete_nil
  | 5, he =>
    cases he
    exact complete_concat _
  | 7, he =>
    cases he
    intro s hs
    cases hs
    intro last hlast entry hentry
    cases hlast
    rcases List.mem_cons.mp hentry with rfl | hentry
    · decide
    · obtain rfl := List.mem_singleton.mp hentry
      exact le_rfl

/-- An entry of type `type` with number `seq`. -/
def tickEntry (seq : Nat) (type : String) : EventLogEntry Unit :=
  { seq, ts := 0, type, payload := () }

/-- Two appends, the second of which overtakes the first on its way into the file. -/
def overtaking : List (JournalEvent Unit) :=
  [.create 500, tick "a", tick "b", .land 1, .land 0, .resolve 0, .resolve 0, .exit]

noncomputable def overtaken : Journal Unit where
  file := lineOf sampleCodec (tickEntry 2 "b") ++ lineOf sampleCodec (tickEntry 1 "a")
  resolved := [tickEntry 2 "b", tickEntry 1 "a"]

theorem entriesOf_overtaken :
    entriesOf sampleCodec overtaken.file = [tickEntry 2 "b", tickEntry 1 "a"] := by
  have hfirst : entriesOf sampleCodec (lineOf sampleCodec (tickEntry 2 "b")) = [tickEntry 2 "b"] :=
    entriesOf_line complete_nil (tickEntry 2 "b")
  refine (entriesOf_line (complete_concat _) (tickEntry 1 "a")).trans ?_
  exact congrArg (· ++ [tickEntry 1 "a"]) hfirst

/-- **A number is handed out twice**: the session behind `overtaking` starts from the last line
of the file, which has the smaller number. -/
theorem overtaken_doubles : ¬ ∀ V V' : Journal Unit,
    Reach (Journal.step sampleCodec) anyStep {} V → Reach (Journal.step sampleCodec) anyStep V V' →
      Kept sampleCodec V V' := by
  intro h
  have hrun : Reach (Journal.step sampleCodec) anyStep {} overtaken := .of_exec overtaking rfl
  have hseq : (recoverState sampleCodec overtaken.file 500).seq = 1 := by
    rw [recoverState_seq, entriesOf_overtaken]
    rfl
  set s := recoverState sampleCodec overtaken.file 500 with hs
  have hnext : Reach (Journal.step sampleCodec) anyStep overtaken
      { overtaken with
        file := overtaken.file ++ lineOf sampleCodec (tickEntry (s.seq + 1) "c")
        session := some
          { bufferSize := 500
            seq := s.seq + 1
            buffer := s.buffer
            written := [tickEntry (s.seq + 1) "c"]
            landed := [tickEntry (s.seq + 1) "c"] } } :=
    .of_exec [.create 500, tick "c", .land 0] rfl
  have honce := (h _ _ (hrun.trans hnext) .refl).once {}
  have hcomplete : Complete '\n' overtaken.file := by
    rw [overtaken, lineOf, lineOf, ← List.append_assoc]
    exact complete_concat _
  rw [read_eq, entriesOf_line hcomplete, entriesOf_overtaken, hseq] at honce
  revert honce
  decide

end OpenAlice.Core
