import OpenAlice.Workspaces.Issues.LeadsTo

/-!
# What the audit trail accounts for

The recorded changes of an Issue should lead from its first snapshot to the last that was
observed, and what was recorded when it was edited through OpenAlice should not be recorded
again when it is observed.

A change is dropped when its resulting state has a fingerprint in the store already, and an
edit that is merged into an earlier record leaves no fingerprint of its own.  So an Issue that
returns to a state it was in before is not followed (`return_dropped`), and a merged edit is
recorded twice (`merged_repeated`).  `recordsWell` is the condition under which neither
happens: what is recorded starts from the state recorded last and ends in one whose fingerprint
is new, what a pass should drop has its fingerprint in the store, and a change is merged into
the last record of the Issue only, with no text that was cut.  Then the trail accounts for every
change (`audited`).
-/

namespace OpenAlice.Workspaces.Issues

open OpenAlice.Data OpenAlice.Run OpenAlice.Core

/-! ## What should hold -/

def isOf (workspaceId issueId : String) (record : ProvenanceRecord) : Bool :=
  decide (record.artifact = .issue workspaceId issueId)

def changesOf (record : ProvenanceRecord) : Mutation := record.mutation.getD []

def changes (workspaceId issueId : String) (since : Nat) (records : List ProvenanceRecord) :
    List Mutation :=
  ((records.drop since).filter (isOf workspaceId issueId)).map changesOf

/-- **Every change is accounted for, once.**  When nothing was recorded that no pass has
observed, the changes lead from the first snapshot to the last one, which is that of the
tracker; and no pass has recorded an edit again. -/
structure Audited (t : Trail) : Prop where
  complete : ∀ workspaceId issueId audit, t.audits workspaceId issueId = some audit →
    audit.last = audit.seen →
      Composes audit.baseline (changes workspaceId issueId audit.since t.records) audit.seen
  observed : t.pass = none → ∀ workspaceId issueId,
    (t.workspaces.lookup workspaceId).bind (·.lookup issueId) =
      (t.audits workspaceId issueId).map Audit.seen
  once : t.repeated = []

/-! ## The condition -/

def mergesWell (records : List ProvenanceRecord) (candidate : ProvenanceRecord) (since : Nat) :
    Prop :=
  ∀ k previous, coalescesWith records candidate activityUpdateCoalesceMs = some k →
    records[k]? = some previous → since ≤ k ∧
      (∀ record ∈ records.drop (k + 1), record.artifact ≠ candidate.artifact) ∧
      keepsTexts (previous.mutation.getD []) (candidate.mutation.getD [])

def recordsNext (records : List ProvenanceRecord) (candidate : ProvenanceRecord) (since : Nat) :
    Prop :=
  recorded records candidate.fingerprint = false ∧ mergesWell records candidate since

variable (digest : IssueAuditSnapshot → String)

/-- **What is recorded continues what was recorded.**  An edit of an Issue with a first snapshot
starts from its last state, and is recorded.  A pass finds the last state, and its fingerprint
is in the store; or the Issue was in its last state when it was observed before, and the change
since is recorded. -/
def recordsWell (t : Trail) : TrailEvent → Prop
  | .edit workspaceId issueId before after origin «at» =>
    ∀ audit, t.audits workspaceId issueId = some audit → before ≠ after →
      before = audit.last ∧ recordsNext t.records
        (editRecord digest workspaceId issueId before after origin «at») audit.since
  | .next => ∀ p issueId after rest, t.pass = some p → p.rest = (issueId, after) :: rest →
      ∀ before audit mutation, p.previous.lookup issueId = some before →
        t.audits p.workspaceId issueId = some audit →
        issueMutation before after = some mutation →
          let record := p.changeRecord digest issueId after mutation
          (after = audit.last ∧ recorded t.records record.fingerprint = true) ∨
            (before = audit.last ∧ recordsNext t.records record audit.since)
  | _ => True

/-! ## The changes among the records -/

variable {digest} {records : List ProvenanceRecord} {candidate previous : ProvenanceRecord}
  {workspaceId issueId : String} {since : Nat}

theorem isOf_eq_true (h : candidate.artifact = .issue workspaceId issueId) :
    isOf workspaceId issueId candidate = true := decide_eq_true h

theorem isOf_ne_true (h : candidate.artifact ≠ .issue workspaceId issueId) :
    ¬ isOf workspaceId issueId candidate = true := of_decide_eq_true.mt h

theorem changes_concat_of_ne (h : candidate.artifact ≠ .issue workspaceId issueId) :
    changes workspaceId issueId since (records ++ [candidate]) =
      changes workspaceId issueId since records := by
  rw [changes, List.drop_append, List.filter_append, changes]
  have hnil : ([candidate].drop (since - records.length)).filter (isOf workspaceId issueId) = [] := by
    rw [List.filter_eq_nil_iff]
    intro record hrecord
    rw [List.mem_singleton.mp (List.mem_of_mem_drop hrecord)]
    exact isOf_ne_true h
  rw [hnil, List.append_nil]

theorem changes_concat (hsince : since ≤ records.length)
    (h : candidate.artifact = .issue workspaceId issueId) :
    changes workspaceId issueId since (records ++ [candidate]) =
      changes workspaceId issueId since records ++ [changesOf candidate] := by
  rw [changes, List.drop_append_of_le_length hsince, List.filter_append, List.map_append, changes]
  congr 1
  rw [List.filter_cons_of_pos (isOf_eq_true h)]
  rfl

theorem changes_modify_of_same {f : ProvenanceRecord → ProvenanceRecord}
    (hartifact : ∀ record, (f record).artifact = record.artifact) {k : Nat}
    (h : ∀ record, records[k]? = some record → record.artifact = .issue workspaceId issueId →
        changesOf (f record) = changesOf record) :
    changes workspaceId issueId since (records.modify k f) =
      changes workspaceId issueId since records := by
  induction records generalizing k since with
  | nil => rw [List.modify_nil]
  | cons record records ih =>
    cases k with
    | zero =>
      rw [List.modify_zero_cons]
      cases since with
      | succ since => rfl
      | zero =>
        rw [changes, changes, List.drop_zero, List.drop_zero]
        by_cases hissue : record.artifact = .issue workspaceId issueId
        · rw [List.filter_cons_of_pos (isOf_eq_true hissue),
            List.filter_cons_of_pos (isOf_eq_true ((hartifact record).trans hissue)),
            List.map_cons, List.map_cons, h record rfl hissue]
        have hissue' : (f record).artifact ≠ .issue workspaceId issueId := by
          rw [hartifact]
          exact hissue
        rw [List.filter_cons_of_neg (isOf_ne_true hissue),
          List.filter_cons_of_neg (isOf_ne_true hissue')]
    | succ k =>
      rw [List.modify_succ_cons]
      cases since with
      | succ since => exact ih fun other hother ↦ h other hother
      | zero =>
        have hrest : changes workspaceId issueId 0 (records.modify k f) =
            changes workspaceId issueId 0 records := ih fun other hother ↦ h other hother
        rw [changes, changes, List.drop_zero, List.drop_zero] at hrest ⊢
        by_cases hissue : record.artifact = .issue workspaceId issueId
        · rw [List.filter_cons_of_pos (isOf_eq_true hissue),
            List.filter_cons_of_pos (isOf_eq_true hissue), List.map_cons, List.map_cons,
            hrest]
        · rw [List.filter_cons_of_neg (isOf_ne_true hissue),
            List.filter_cons_of_neg (isOf_ne_true hissue), hrest]

theorem changes_split {k : Nat} (hget : records[k]? = some previous)
    (hartifact : previous.artifact = .issue workspaceId issueId) (hsince : since ≤ k)
    (hlast : ∀ record ∈ records.drop (k + 1), record.artifact ≠ .issue workspaceId issueId)
    (f : ProvenanceRecord → ProvenanceRecord)
    (hf : (f previous).artifact = previous.artifact) :
    ∃ mutations, changes workspaceId issueId since records = mutations ++ [changesOf previous] ∧
      changes workspaceId issueId since (records.modify k f) =
        mutations ++ [changesOf (f previous)] := by
  obtain ⟨hk, hprevious⟩ := List.getElem?_eq_some_iff.mp hget
  have hsplit : records = records.take k ++ previous :: records.drop (k + 1) := by
    rw [← hprevious, List.getElem_cons_drop, List.take_append_drop]
  have hmodify : records.modify k f = records.take k ++ f previous :: records.drop (k + 1) := by
    rw [List.modify_eq_take_cons_drop hk, hprevious]
  have hrest : (records.drop (k + 1)).filter (isOf workspaceId issueId) = [] :=
    List.filter_eq_nil_iff.mpr fun record hrecord ↦ isOf_ne_true (hlast record hrecord)
  have hchanges (record : ProvenanceRecord)
      (hrecord : record.artifact = .issue workspaceId issueId) :
      changes workspaceId issueId since (records.take k ++ record :: records.drop (k + 1)) =
        (((records.take k).drop since).filter (isOf workspaceId issueId)).map changesOf ++
          [changesOf record] := by
    have hlength : since ≤ (records.take k).length := by
      rw [List.length_take]
      omega
    rw [changes, List.drop_append_of_le_length hlength, List.filter_append, List.map_append,
      List.filter_cons_of_pos (isOf_eq_true hrecord), hrest]
    rfl
  refine ⟨(((records.take k).drop since).filter (isOf workspaceId issueId)).map changesOf, ?_, ?_⟩
  · conv_lhs => rw [hsplit]
    exact hchanges previous hartifact
  · rw [hmodify]
    exact hchanges (f previous) (hf.trans hartifact)

theorem artifactMatches_issue {artifact : ArtifactRef}
    (h : artifactMatches artifact (.issue workspaceId issueId) = true) :
    artifact = .issue workspaceId issueId := by
  cases artifact with
  | issue workspaceId' issueId' =>
    obtain ⟨hworkspace, hissue⟩ := Bool.and_eq_true_iff.mp h
    rw [of_decide_eq_true hworkspace, of_decide_eq_true hissue]
  | inbox => cases h
  | report => cases h
  | tradeDecision => cases h

theorem mergeInto_artifact (candidate previous : ProvenanceRecord) :
    (mergeInto candidate previous).artifact = previous.artifact := rfl

theorem length_append_le (candidate : ProvenanceRecord) (within : Int) :
    records.length ≤ (append records candidate within).length := by
  rcases append_cases records candidate within with
    ⟨-, heq⟩ | ⟨-, ⟨k, previous, -, -, -, -, heq⟩ | heq⟩
  · rw [heq]
  · rw [heq, List.length_modify]
  · rw [heq, List.length_append]
    exact Nat.le_add_right _ _

theorem changes_append_of_ne {within : Int}
    (h : artifactMatches (.issue workspaceId issueId) candidate.artifact = false) :
    changes workspaceId issueId since (append records candidate within) =
      changes workspaceId issueId since records := by
  rcases append_cases records candidate within with
    ⟨-, heq⟩ | ⟨-, ⟨k, previous, -, -, hget, hmatch, heq⟩ | heq⟩
  · rw [heq]
  · rw [heq]
    refine changes_modify_of_same (mergeInto_artifact candidate) fun record hrecord hissue ↦ ?_
    rw [hrecord] at hget
    rw [← Option.some.inj hget, hissue, h] at hmatch
    cases hmatch
  · rw [heq]
    refine changes_concat_of_ne fun hissue ↦ ?_
    rw [hissue] at h
    rw [artifactMatches, decide_eq_true rfl, decide_eq_true rfl] at h
    cases h

variable {base s s' : IssueAuditSnapshot}

theorem Composes.record_none {within : Int} (hsince : since ≤ records.length)
    (h : Composes base (changes workspaceId issueId since records) s)
    (hmutation : candidate.mutation = none) :
    Composes base (changes workspaceId issueId since (append records candidate within)) s := by
  rcases append_cases records candidate within with
    ⟨-, heq⟩ | ⟨-, ⟨k, previous, -, -, -, -, heq⟩ | heq⟩
  · rw [heq]
    exact h
  · rw [heq, changes_modify_of_same (mergeInto_artifact candidate) fun record _ _ ↦ ?_]
    · exact h
    · rw [changesOf, mergeInto, hmutation, changesOf]
  · rw [heq]
    by_cases hissue : candidate.artifact = .issue workspaceId issueId
    · rw [changes_concat hsince hissue, changesOf, hmutation]
      exact h.concat (leadsTo_nil s)
    · rw [changes_concat_of_ne hissue]
      exact h

theorem mergeInto_mutation {mutation : Mutation} (h : candidate.mutation = some mutation) :
    changesOf (mergeInto candidate previous) =
      mergeProvenanceMutation previous.mutation mutation := by
  rw [changesOf, mergeInto, h]
  show (if _ then none else some _ : Option Mutation).getD [] = _
  split_ifs with hnil
  · exact hnil.symm
  · rfl

/-- **A change that is recorded**, merged or not, leads on from where the changes led. -/
theorem Composes.record (hsince : since ≤ records.length)
    (h : Composes base (changes workspaceId issueId since records) s)
    (hartifact : candidate.artifact = .issue workspaceId issueId)
    (hmutation : candidate.mutation = some (mutationFields s s'))
    (hnext : recordsNext records candidate since) :
    Composes base
      (changes workspaceId issueId since (append records candidate activityUpdateCoalesceMs)) s' := by
  have hleads := mutationFields_leadsTo s s'
  rcases append_cases records candidate activityUpdateCoalesceMs with
    ⟨hrecorded, -⟩ | ⟨-, ⟨k, previous, -, hk, hget, hmatch, heq⟩ | heq⟩
  · rw [hnext.1] at hrecorded
    cases hrecorded
  · obtain ⟨hle, hlast, hkeeps⟩ := hnext.2 k previous hk hget
    rw [hartifact] at hmatch hlast
    obtain ⟨mutations, hchanges, hmodify⟩ := changes_split hget (artifactMatches_issue hmatch) hle
      hlast (mergeInto candidate) rfl
    rw [hchanges] at h
    obtain ⟨t, ht, hprevious⟩ := h.concat_inv
    rw [heq, hmodify, mergeInto_mutation hmutation]
    rw [hmutation] at hkeeps
    exact ht.concat (hprevious.merge hleads hkeeps)
  · rw [heq, changes_concat hsince hartifact, changesOf, hmutation]
    exact h.concat hleads

/-! ## What a step is -/

variable {t t' : Trail} {e : TrailEvent} {p : Pass}

variable {origin : ArtifactOrigin} {«at» : Int}

theorem observe_cases {issues : Snapshots}
    (h : trailStep digest t (.observe workspaceId issues origin «at») = some t') :
    t.pass = none ∧ (issues.map Prod.fst).Nodup ∧ ((t.workspaces.lookup workspaceId = none ∧
          t' = { t with
            workspaces := setKey t.workspaces workspaceId issues
            audits := fun workspaceId' issueId ↦
              if workspaceId' = workspaceId then
                (issues.lookup issueId).map (.first t.records.length)
              else t.audits workspaceId' issueId }) ∨
        ∃ previous, t.workspaces.lookup workspaceId = some previous ∧ t' = { t with pass := some {
            workspaceId, origin, «at», previous, current := issues, rest := issues
            dirty := previous.length != issues.length } }) := by
  obtain ⟨hguard, h⟩ := Option.ite_none_left_eq_some.mp h
  rw [not_or, Option.not_isSome_iff_eq_none, not_not] at hguard
  refine ⟨hguard.1, hguard.2, ?_⟩
  cases hlookup : t.workspaces.lookup workspaceId with
  | none =>
    rw [hlookup] at h
    exact .inl ⟨rfl, (Option.some.inj h).symm⟩
  | some previous =>
    rw [hlookup] at h
    exact .inr ⟨previous, rfl, (Option.some.inj h).symm⟩

theorem next_cases (h : trailStep digest t .next = some t') : ∃ p issueId after rest,
    t.pass = some p ∧ p.rest = (issueId, after) :: rest ∧
      t' = t.takeIssue digest p issueId after rest := by
  rw [trailStep] at h
  cases hpass : t.pass with
  | none =>
    rw [hpass] at h
    cases h
  | some p =>
    rw [hpass] at h
    cases hrest : p.rest with
    | nil =>
      simp only [hrest] at h
      cases h
    | cons issue rest =>
      simp only [hrest] at h
      exact ⟨p, issue.1, issue.2, rest, rfl, hrest, (Option.some.inj h).symm⟩

theorem finish_cases (h : trailStep digest t .finish = some t') : ∃ p,
    t.pass = some p ∧ p.rest = [] ∧ ((p.dirty = true ∧ t' = { t with
          workspaces := setKey t.workspaces p.workspaceId p.current
          pass := none
          audits := fun workspaceId issueId ↦
            if workspaceId = p.workspaceId ∧ p.current.lookup issueId = none then none
            else t.audits workspaceId issueId }) ∨
        p.dirty = false ∧ t' = { t with pass := none }) := by
  rw [trailStep] at h
  cases hpass : t.pass with
  | none =>
    rw [hpass] at h
    cases h
  | some p =>
    rw [hpass] at h
    obtain ⟨hrest, h⟩ := Option.ite_none_left_eq_some.mp h
    refine ⟨p, rfl, not_not.mp hrest, ?_⟩
    cases hdirty : p.dirty with
    | true =>
      rw [if_pos hdirty] at h
      exact .inl ⟨rfl, (Option.some.inj h).symm⟩
    | false =>
      rw [if_neg (by rw [hdirty]; exact Bool.false_ne_true)] at h
      exact .inr ⟨rfl, (Option.some.inj h).symm⟩

inductive TakesIssue (digest : IssueAuditSnapshot → String) (t : Trail) (p : Pass)
    (issueId : String) (after : IssueAuditSnapshot) (rest : Snapshots) : Trail → Prop
  | created {records : List ProvenanceRecord} (hnew : p.previous.lookup issueId = none)
      (hrecords : records = t.records ∨ records = append t.records (p.createdRecord issueId) 0) :
      TakesIssue digest t p issueId after rest { t with
        records := records
        pass := some { p with rest := rest, dirty := true }
        audits := setAudit t.audits p.workspaceId issueId (some (.first records.length after)) }
  | same (hbefore : p.previous.lookup issueId = some after) :
      TakesIssue digest t p issueId after rest { t with pass := some { p with rest := rest } }
  | changed {before : IssueAuditSnapshot} {mutation : Mutation} {again : List (String × String)}
      (hbefore : p.previous.lookup issueId = some before)
      (hmutation : issueMutation before after = some mutation)
      (hagain : again = t.repeated ∨
        recorded t.records (p.changeRecord digest issueId after mutation).fingerprint = false ∧
          ((t.audits p.workspaceId issueId).elim [] Audit.attributed) ≠ []) :
      TakesIssue digest t p issueId after rest { t with
        records := append t.records (p.changeRecord digest issueId after mutation)
          activityUpdateCoalesceMs
        pass := some { p with rest := rest, dirty := true }
        audits := setAudit t.audits p.workspaceId issueId
          ((t.audits p.workspaceId issueId).map (·.observed after))
        repeated := again }

theorem takesIssue (digest : IssueAuditSnapshot → String) (t : Trail) (p : Pass)
    (issueId : String) (after : IssueAuditSnapshot)
    (rest : Snapshots) :
    TakesIssue digest t p issueId after rest (t.takeIssue digest p issueId after rest) := by
  rw [Trail.takeIssue]
  cases hbefore : p.previous.lookup issueId with
  | none =>
    refine .created hbefore ?_
    split_ifs
    · exact .inl rfl
    · exact .inr rfl
  | some before =>
    cases hmutation : issueMutation before after with
    | none =>
      simp only [hmutation]
      rw [issueMutation_eq_none_iff.mp hmutation] at hbefore
      exact .same hbefore
    | some mutation =>
      simp only [hmutation]
      refine .changed hbefore hmutation ?_
      split_ifs with hagain
      · obtain ⟨hnew, hany⟩ := Bool.and_eq_true_iff.mp hagain
        refine .inr ⟨by simpa using hnew, fun hnil ↦ ?_⟩
        rw [hnil] at hany
        cases hany
      · exact .inl rfl

/-! ## What the tracker has seen -/

def seenBy (pass : Option Pass) (workspaces : List (String × Snapshots))
    (workspaceId issueId : String) : Option IssueAuditSnapshot :=
  match pass with
  | some p =>
    if workspaceId = p.workspaceId ∧ issueId ∉ p.rest.map Prod.fst then
      (p.current.lookup issueId).or (p.previous.lookup issueId)
    else (workspaces.lookup workspaceId).bind (·.lookup issueId)
  | none => (workspaces.lookup workspaceId).bind (·.lookup issueId)

structure PassSound (t : Trail) (p : Pass) : Prop where
  previous : t.workspaces.lookup p.workspaceId = some p.previous
  nodup : (p.current.map Prod.fst).Nodup
  suffix : p.rest <:+ p.current
  clean : p.dirty = false → ∀ issueId, issueId ∉ p.rest.map Prod.fst → ∀ snapshot,
    p.current.lookup issueId = some snapshot → p.previous.lookup issueId = some snapshot

/-- **What is known of the Issues is what the tracker has seen.** -/
structure Tracked (t : Trail) : Prop where
  seen : ∀ workspaceId issueId, (t.audits workspaceId issueId).map Audit.seen =
      seenBy t.pass t.workspaces workspaceId issueId
  pass : ∀ p, t.pass = some p → PassSound t p

theorem setAudit_self (audits : String → String → Option Audit) (audit : Option Audit) :
    setAudit audits workspaceId issueId audit workspaceId issueId = audit := if_pos ⟨rfl, rfl⟩

theorem setAudit_of_ne {audits : String → String → Option Audit} {audit : Option Audit}
    {workspaceId' issueId' : String} (h : ¬ (workspaceId' = workspaceId ∧ issueId' = issueId)) :
    setAudit audits workspaceId issueId audit workspaceId' issueId' =
      audits workspaceId' issueId' := if_neg h

theorem PassSound.lookup (h : PassSound t p) {after : IssueAuditSnapshot} {rest : Snapshots}
    (hrest : p.rest = (issueId, after) :: rest) :
    p.current.lookup issueId = some after ∧ issueId ∉ rest.map Prod.fst := by
  obtain ⟨init, hinit⟩ := h.suffix
  have hnodup := h.nodup
  rw [← hinit, hrest, List.map_append, List.nodup_append, List.map_cons, List.nodup_cons] at hnodup
  refine ⟨?_, hnodup.2.1.1⟩
  have hnot : init.lookup issueId = none := by
    rw [List.lookup_eq_none_iff]
    intro entry hentry
    have hne := hnodup.2.2 entry.1 (List.mem_map_of_mem hentry) issueId List.mem_cons_self
    exact bne_iff_ne.mpr (Ne.symm hne)
  rw [← hinit, hrest, List.lookup_append, hnot, List.lookup_cons_self]
  rfl

theorem lookup_eq_none_of_not_mem {snapshots : Snapshots}
    (h : issueId ∉ snapshots.map Prod.fst) : snapshots.lookup issueId = none := by
  rw [List.lookup_eq_none_iff]
  intro entry hentry
  exact bne_iff_ne.mpr fun heq ↦ h (by rw [heq]; exact List.mem_map_of_mem hentry)

theorem Tracked.edit {before after : IssueAuditSnapshot} (h : Tracked t)
    (hstep : trailStep digest t (.edit workspaceId issueId before after origin «at») = some t') :
    Tracked t' := by
  cases hstep
  refine ⟨fun workspaceId' issueId' ↦ ?_, fun p hp ↦ ⟨(h.pass p hp).previous, (h.pass p hp).nodup,
    (h.pass p hp).suffix, (h.pass p hp).clean⟩⟩
  show _ = seenBy t.pass t.workspaces workspaceId' issueId'
  rw [← h.seen]
  cases issueMutation before after with
  | none => rfl
  | some mutation =>
    show (setAudit _ _ _ _ workspaceId' issueId').map Audit.seen = _
    by_cases hissue : workspaceId' = workspaceId ∧ issueId' = issueId
    · obtain ⟨rfl, rfl⟩ := hissue
      rw [setAudit_self, Option.map_map]
      rfl
    · rw [setAudit_of_ne hissue]

theorem Tracked.observe {issues : Snapshots} (h : Tracked t)
    (hstep : trailStep digest t (.observe workspaceId issues origin «at») = some t') :
    Tracked t' := by
  obtain ⟨hnone, hnodup, hcases⟩ := observe_cases hstep
  have hseen := h.seen
  rw [hnone] at hseen
  rcases hcases with ⟨hlookup, rfl⟩ | ⟨previous, hlookup, rfl⟩
  · refine ⟨fun workspaceId' issueId ↦ ?_, fun p hp ↦ absurd (hnone.symm.trans hp)
      (Option.some_ne_none p).symm⟩
    show (if _ then _ else _ : Option Audit).map Audit.seen =
      seenBy t.pass (setKey t.workspaces workspaceId issues) workspaceId' issueId
    rw [hnone]
    show _ = ((setKey t.workspaces workspaceId issues).lookup workspaceId').bind _
    by_cases hworkspace : workspaceId' = workspaceId
    · subst hworkspace
      rw [if_pos rfl, lookup_setKey_self, Option.map_map]
      exact Option.map_id'
    · rw [if_neg hworkspace, hseen, lookup_setKey_of_ne hworkspace]
      rfl
  · refine ⟨fun workspaceId' issueId ↦ ?_, fun p hp ↦ ?_⟩
    · show (t.audits workspaceId' issueId).map Audit.seen = if _ then _ else _
      rw [hseen]
      split_ifs with hissue
      · obtain ⟨rfl, hissue⟩ := hissue
        rw [lookup_eq_none_of_not_mem hissue, seenBy, hlookup]
        rfl
      · rfl
    · cases hp
      refine ⟨hlookup, hnodup, List.suffix_refl _, fun _ issueId hissue snapshot hsnapshot ↦ ?_⟩
      rw [lookup_eq_none_of_not_mem hissue] at hsnapshot
      cases hsnapshot

theorem seenBy_next {after : IssueAuditSnapshot} {rest : Snapshots} {dirty : Bool}
    (h : PassSound t p) (hrest : p.rest = (issueId, after) :: rest)
    (workspaceId' issueId' : String) :
    seenBy (some { p with rest := rest, dirty := dirty }) t.workspaces workspaceId' issueId' =
      if workspaceId' = p.workspaceId ∧ issueId' = issueId then some after
      else seenBy (some p) t.workspaces workspaceId' issueId' := by
  obtain ⟨hlookup, hnot⟩ := h.lookup hrest
  by_cases hissue : workspaceId' = p.workspaceId ∧ issueId' = issueId
  · obtain ⟨rfl, rfl⟩ := hissue
    rw [if_pos ⟨rfl, rfl⟩, seenBy]
    refine (if_pos ⟨rfl, hnot⟩).trans ?_
    rw [hlookup]
    rfl
  · rw [if_neg hissue, seenBy, seenBy, hrest]
    have hmem : workspaceId' = p.workspaceId → (issueId' ∉ rest.map Prod.fst ↔
        issueId' ∉ ((issueId, after) :: rest).map Prod.fst) := by
      intro hworkspace
      rw [List.map_cons, List.mem_cons, not_or]
      exact ⟨fun h ↦ ⟨fun heq ↦ hissue ⟨hworkspace, heq⟩, h⟩, And.right⟩
    exact if_congr (and_congr_right hmem) rfl rfl

theorem Tracked.next (h : Tracked t) (hstep : trailStep digest t .next = some t') :
    Tracked t' := by
  obtain ⟨p, issueId, after, rest, hpass, hrest, rfl⟩ := next_cases hstep
  have hsound := h.pass p hpass
  obtain ⟨hlookup, hnot⟩ := hsound.lookup hrest
  have hseen := h.seen
  rw [hpass] at hseen
  have hsuffix : rest <:+ p.current := by
    refine List.IsSuffix.trans ?_ hsound.suffix
    rw [hrest]
    exact List.suffix_cons _ _
  have hbefore : seenBy (some p) t.workspaces p.workspaceId issueId =
      p.previous.lookup issueId := by
    rw [seenBy, if_neg fun h ↦ h.2 (by rw [hrest]; exact List.mem_cons_self), hsound.previous]
    rfl
  have htakes := takesIssue digest t p issueId after rest
  generalize t.takeIssue digest p issueId after rest = t' at htakes
  cases htakes with
  | created hnew hrecords =>
    refine ⟨fun workspaceId' issueId' ↦ ?_, fun p' hp' ↦ ?_⟩
    · refine Eq.trans ?_ (seenBy_next hsound hrest workspaceId' issueId').symm
      show (setAudit _ _ _ _ workspaceId' issueId').map Audit.seen = _
      split_ifs with hissue
      · obtain ⟨rfl, rfl⟩ := hissue
        rw [setAudit_self]
        rfl
      · rw [setAudit_of_ne hissue, hseen]
    · cases hp'
      exact ⟨hsound.previous, hsound.nodup, hsuffix, fun hdirty ↦ absurd hdirty.symm
        Bool.false_ne_true⟩
  | same hsame =>
    refine ⟨fun workspaceId' issueId' ↦ ?_, fun p' hp' ↦ ?_⟩
    · refine Eq.trans ?_ (seenBy_next hsound hrest workspaceId' issueId').symm
      refine (hseen workspaceId' issueId').trans ?_
      split_ifs with hissue
      · obtain ⟨rfl, rfl⟩ := hissue
        rw [hbefore, hsame]
      · rfl
    · cases hp'
      refine ⟨hsound.previous, hsound.nodup, hsuffix,
        fun hdirty issueId' hissue snapshot hsnapshot ↦ ?_⟩
      by_cases heq : issueId' = issueId
      · rw [heq] at hsnapshot ⊢
        rw [hlookup] at hsnapshot
        rw [hsame, hsnapshot]
      refine hsound.clean hdirty issueId' (fun hmem ↦ ?_) snapshot hsnapshot
      rw [hrest, List.map_cons, List.mem_cons] at hmem
      exact hissue (hmem.resolve_left heq)
  | changed hprevious hmutation hagain =>
    refine ⟨fun workspaceId' issueId' ↦ ?_, fun p' hp' ↦ ?_⟩
    · refine Eq.trans ?_ (seenBy_next hsound hrest workspaceId' issueId').symm
      show (setAudit _ _ _ _ workspaceId' issueId').map Audit.seen = _
      split_ifs with hissue
      · obtain ⟨rfl, rfl⟩ := hissue
        have hsome := (hseen p.workspaceId issueId').trans (hbefore.trans hprevious)
        obtain ⟨audit, haudit, -⟩ := Option.map_eq_some_iff.mp hsome
        rw [setAudit_self, haudit]
        rfl
      · rw [setAudit_of_ne hissue, hseen]
    · cases hp'
      exact ⟨hsound.previous, hsound.nodup, hsuffix, fun hdirty ↦ absurd hdirty.symm
        Bool.false_ne_true⟩

theorem Tracked.finish (h : Tracked t) (hstep : trailStep digest t .finish = some t') :
    Tracked t' := by
  obtain ⟨p, hpass, hrest, hcases⟩ := finish_cases hstep
  have hsound := h.pass p hpass
  have hseen := h.seen
  rw [hpass] at hseen
  rcases hcases with ⟨hdirty, rfl⟩ | ⟨hdirty, rfl⟩
  · refine ⟨fun workspaceId issueId ↦ ?_, fun p' hp' ↦ by cases hp'⟩
    have hseen := hseen workspaceId issueId
    rw [seenBy, hrest] at hseen
    show (if _ then none else _ : Option Audit).map Audit.seen =
      ((setKey t.workspaces p.workspaceId p.current).lookup workspaceId).bind _
    by_cases hworkspace : workspaceId = p.workspaceId
    · subst hworkspace
      rw [if_pos ⟨rfl, List.not_mem_nil⟩] at hseen
      rw [lookup_setKey_self, Option.bind_some]
      cases hlookup : p.current.lookup issueId with
      | none =>
        rw [if_pos ⟨rfl, rfl⟩]
        rfl
      | some snapshot =>
        rw [if_neg fun h ↦ Option.some_ne_none _ h.2, hseen, hlookup]
        rfl
    · rw [if_neg fun h ↦ hworkspace h.1] at hseen
      rw [lookup_setKey_of_ne hworkspace, ← hseen, if_neg fun h ↦ hworkspace h.1]
  · refine ⟨fun workspaceId issueId ↦ ?_, fun p' hp' ↦ by cases hp'⟩
    refine (hseen workspaceId issueId).trans ?_
    rw [seenBy, hrest]
    split_ifs with hissue
    · obtain ⟨rfl, -⟩ := hissue
      show _ = (t.workspaces.lookup p.workspaceId).bind _
      rw [hsound.previous]
      cases hlookup : p.current.lookup issueId with
      | none => rfl
      | some snapshot =>
        have hmem : issueId ∉ p.rest.map Prod.fst := by
          rw [hrest]
          exact List.not_mem_nil
        exact (hsound.clean hdirty issueId hmem snapshot hlookup).symm
    · rfl

theorem Tracked.step (h : Tracked t) (hstep : trailStep digest t e = some t') : Tracked t' := by
  cases e with
  | edit => exact h.edit hstep
  | activity record =>
    obtain ⟨-, heq⟩ := Option.ite_none_left_eq_some.mp hstep
    cases heq
    exact ⟨h.seen, fun p hp ↦ ⟨(h.pass p hp).previous, (h.pass p hp).nodup,
      (h.pass p hp).suffix, (h.pass p hp).clean⟩⟩
  | observe => exact h.observe hstep
  | next => exact h.next hstep
  | finish => exact h.finish hstep

/-! ## What the records account for -/

/-- **The changes lead to the last state** of each Issue, and where that is the observed one,
no edit is left that a pass could record again. -/
structure Accounted (t : Trail) : Prop where
  chain : ∀ workspaceId issueId audit, t.audits workspaceId issueId = some audit →
    audit.since ≤ t.records.length ∧
      Composes audit.baseline (changes workspaceId issueId audit.since t.records) audit.last
  calm : ∀ workspaceId issueId audit, t.audits workspaceId issueId = some audit →
    audit.last = audit.seen → audit.attributed = []
  once : t.repeated = []

theorem Accounted.append_none (h : Accounted t) (candidate : ProvenanceRecord) (within : Int)
    (hmutation : candidate.mutation = none) :
    Accounted { t with records := append t.records candidate within } where
  chain := fun workspaceId issueId audit haudit ↦
    ⟨(h.chain workspaceId issueId audit haudit).1.trans (length_append_le candidate within),
      (h.chain workspaceId issueId audit haudit).2.record_none
        (h.chain workspaceId issueId audit haudit).1 hmutation⟩
  calm := h.calm
  once := h.once

theorem artifactMatches_of_ne {workspaceId' issueId' : String}
    (h : ¬ (workspaceId' = workspaceId ∧ issueId' = issueId)) :
    artifactMatches (.issue workspaceId' issueId') (.issue workspaceId issueId) = false := by
  rw [artifactMatches, ← Bool.not_eq_true, Bool.and_eq_true, decide_eq_true_eq, decide_eq_true_eq]
  exact h

/-- **A change of one Issue is recorded**, and what is known of the Issue afterwards is that
the changes lead to its new state. -/
theorem Accounted.record (h : Accounted t) {audit' : Option Audit}
    {repeated' : List (String × String)}
    {pass' : Option Pass} {within : Int}
    (hartifact : candidate.artifact = .issue workspaceId issueId)
    (hchain : ∀ audit, audit' = some audit →
      audit.since ≤ (append t.records candidate within).length ∧ Composes audit.baseline
        (changes workspaceId issueId audit.since (append t.records candidate within)) audit.last)
    (hcalm : ∀ audit, audit' = some audit → audit.last = audit.seen → audit.attributed = [])
    (honce : repeated' = []) :
    Accounted { t with
      records := append t.records candidate within
      audits := setAudit t.audits workspaceId issueId audit'
      pass := pass'
      repeated := repeated' } := by
  refine ⟨fun workspaceId' issueId' audit haudit ↦ ?_,
    fun workspaceId' issueId' audit haudit hlast ↦ ?_, honce⟩
  · by_cases hissue : workspaceId' = workspaceId ∧ issueId' = issueId
    · obtain ⟨rfl, rfl⟩ := hissue
      exact hchain audit ((setAudit_self _ _).symm.trans haudit)
    have hother := h.chain workspaceId' issueId' audit ((setAudit_of_ne hissue).symm.trans haudit)
    refine ⟨hother.1.trans (length_append_le candidate within), ?_⟩
    show Composes _ (changes _ _ _ (append t.records candidate within)) _
    rw [changes_append_of_ne (by rw [hartifact]; exact artifactMatches_of_ne hissue)]
    exact hother.2
  · by_cases hissue : workspaceId' = workspaceId ∧ issueId' = issueId
    · obtain ⟨rfl, rfl⟩ := hissue
      exact hcalm audit ((setAudit_self _ _).symm.trans haudit) hlast
    · exact h.calm workspaceId' issueId' audit ((setAudit_of_ne hissue).symm.trans haudit) hlast

theorem Accounted.edit {before after : IssueAuditSnapshot} (h : Accounted t)
    (hok : recordsWell digest t (.edit workspaceId issueId before after origin «at»))
    (hstep : trailStep digest t (.edit workspaceId issueId before after origin «at») = some t') :
    Accounted t' := by
  cases hstep
  cases hmutation : issueMutation before after with
  | none => exact h.append_none _ _ hmutation
  | some mutation =>
    obtain ⟨rfl, hne⟩ := issueMutation_eq_some hmutation
    refine h.record rfl (fun audit' haudit' ↦ ?_) (fun audit' haudit' hlast ↦ ?_) h.once
    · obtain ⟨audit, haudit, rfl⟩ := Option.map_eq_some_iff.mp haudit'
      obtain ⟨hlast, hnext⟩ := hok audit haudit hne
      obtain ⟨hsince, hchain⟩ := h.chain workspaceId issueId audit haudit
      rw [← hlast] at hchain
      exact ⟨hsince.trans (length_append_le _ _), hchain.record hsince rfl hmutation hnext⟩
    · obtain ⟨audit, haudit, rfl⟩ := Option.map_eq_some_iff.mp haudit'
      exact if_pos hlast

theorem Accounted.observe {issues : Snapshots} (h : Accounted t)
    (hstep : trailStep digest t (.observe workspaceId issues origin «at») = some t') :
    Accounted t' := by
  obtain ⟨-, -, ⟨-, rfl⟩ | ⟨previous, -, rfl⟩⟩ := observe_cases hstep
  · refine ⟨fun workspaceId' issueId audit haudit ↦ ?_,
      fun workspaceId' issueId audit haudit hlast ↦ ?_, h.once⟩
    · by_cases hworkspace : workspaceId' = workspaceId
      · obtain ⟨snapshot, -, rfl⟩ := Option.map_eq_some_iff.mp ((if_pos hworkspace).symm.trans haudit)
        refine ⟨le_rfl, ?_⟩
        show Composes snapshot (((t.records.drop t.records.length).filter _).map _) snapshot
        rw [List.drop_length]
        exact .nil
      · exact h.chain workspaceId' issueId audit ((if_neg hworkspace).symm.trans haudit)
    · by_cases hworkspace : workspaceId' = workspaceId
      · obtain ⟨snapshot, -, rfl⟩ := Option.map_eq_some_iff.mp ((if_pos hworkspace).symm.trans haudit)
        rfl
      · exact h.calm workspaceId' issueId audit ((if_neg hworkspace).symm.trans haudit) hlast
  · exact ⟨h.chain, h.calm, h.once⟩

theorem composes_first (records : List ProvenanceRecord) (workspaceId issueId : String)
    (s : IssueAuditSnapshot) : Composes s
    (changes workspaceId issueId records.length records) s := by
  rw [changes, List.drop_length]
  exact .nil

theorem Accounted.next (h : Accounted t) (htracked : Tracked t)
    (hok : recordsWell digest t .next) (hstep : trailStep digest t .next = some t') :
    Accounted t' := by
  obtain ⟨p, issueId, after, rest, hpass, hrest, rfl⟩ := next_cases hstep
  have hsound := htracked.pass p hpass
  have htakes := takesIssue digest t p issueId after rest
  generalize t.takeIssue digest p issueId after rest = t' at htakes
  cases htakes with
  | @created records hnew hrecords =>
    have hfirst : ∀ audit, some (Audit.first records.length after) = some audit →
        audit.since ≤ records.length ∧ Composes audit.baseline
          (changes p.workspaceId issueId audit.since records) audit.last := by
      intro audit haudit
      cases haudit
      exact ⟨le_rfl, composes_first records p.workspaceId issueId after⟩
    have hcalm : ∀ audit, some (Audit.first records.length after) = some audit →
        audit.last = audit.seen → audit.attributed = [] := by
      intro audit haudit _
      cases haudit
      rfl
    rcases hrecords with rfl | rfl
    · refine ⟨fun workspaceId' issueId' audit haudit ↦ ?_,
        fun workspaceId' issueId' audit haudit hlast ↦ ?_, h.once⟩
      · by_cases hissue : workspaceId' = p.workspaceId ∧ issueId' = issueId
        · obtain ⟨rfl, rfl⟩ := hissue
          exact hfirst audit ((setAudit_self _ _).symm.trans haudit)
        · exact h.chain _ _ audit ((setAudit_of_ne hissue).symm.trans haudit)
      · by_cases hissue : workspaceId' = p.workspaceId ∧ issueId' = issueId
        · obtain ⟨rfl, rfl⟩ := hissue
          exact hcalm audit ((setAudit_self _ _).symm.trans haudit) hlast
        · exact h.calm _ _ audit ((setAudit_of_ne hissue).symm.trans haudit) hlast
    · exact h.record rfl hfirst hcalm h.once
  | same hsame => exact ⟨h.chain, h.calm, h.once⟩
  | @changed before mutation again hprevious hmutation hagain =>
    obtain ⟨rfl, hne⟩ := issueMutation_eq_some hmutation
    -- the pass compares with what it has seen before
    have hseen : (t.audits p.workspaceId issueId).map Audit.seen = some before := by
      rw [htracked.seen, hpass, seenBy,
        if_neg fun h ↦ h.2 (by rw [hrest]; exact List.mem_cons_self), hsound.previous]
      exact hprevious
    obtain ⟨audit, haudit, rfl⟩ := Option.map_eq_some_iff.mp hseen
    have hcalm : ∀ audit', (t.audits p.workspaceId issueId).map (·.observed after) = some audit' →
        audit'.last = audit'.seen → audit'.attributed = [] := by
      intro audit' haudit' _
      obtain ⟨_, _, rfl⟩ := Option.map_eq_some_iff.mp haudit'
      rfl
    obtain ⟨hsince, hchain⟩ := h.chain p.workspaceId issueId audit haudit
    rcases hok p issueId after rest hpass hrest audit.seen audit _ hprevious haudit hmutation with
      ⟨hlast, hrecorded⟩ | ⟨hlast, hnext⟩
    · have hsame : append t.records (p.changeRecord digest issueId after
          (mutationFields audit.seen after)) activityUpdateCoalesceMs = t.records := if_pos hrecorded
      refine h.record rfl (fun audit' haudit' ↦ ?_) hcalm ?_
      · rw [haudit] at haudit'
        cases haudit'
        rw [hsame, hlast]
        exact ⟨hsince, hchain⟩
      rcases hagain with rfl | ⟨hnew, -⟩
      · exact h.once
      · cases hrecorded.symm.trans hnew
    · refine h.record rfl (fun audit' haudit' ↦ ?_) hcalm ?_
      · rw [haudit] at haudit'
        cases haudit'
        rw [← hlast] at hchain
        exact ⟨hsince.trans (length_append_le _ _), hchain.record hsince rfl rfl hnext⟩
      rcases hagain with rfl | ⟨-, hattributed⟩
      · exact h.once
      · rw [haudit] at hattributed
        exact absurd (h.calm _ _ audit haudit hlast.symm) hattributed

theorem Accounted.finish (h : Accounted t) (hstep : trailStep digest t .finish = some t') :
    Accounted t' := by
  obtain ⟨p, -, -, ⟨-, rfl⟩ | ⟨-, rfl⟩⟩ := finish_cases hstep
  · exact ⟨fun workspaceId issueId audit haudit ↦
        h.chain _ _ audit (Option.ite_none_left_eq_some.mp haudit).2,
      fun workspaceId issueId audit haudit ↦
        h.calm _ _ audit (Option.ite_none_left_eq_some.mp haudit).2, h.once⟩
  · exact ⟨h.chain, h.calm, h.once⟩

theorem Accounted.step (h : Accounted t) (htracked : Tracked t) (hok : recordsWell digest t e)
    (hstep : trailStep digest t e = some t') : Accounted t' := by
  cases e with
  | edit => exact h.edit hok hstep
  | activity record =>
    obtain ⟨hguard, heq⟩ := Option.ite_none_left_eq_some.mp hstep
    rw [not_or, Option.not_isSome_iff_eq_none] at hguard
    cases heq
    exact h.append_none record 0 hguard.2
  | observe => exact h.observe hstep
  | next => exact h.next htracked hok hstep
  | finish => exact h.finish hstep

/-- **The audit trail accounts for every change exactly once**, in every run in which what is
recorded continues what was recorded. -/
theorem audited (h : Reach (trailStep digest) (recordsWell digest) {} t) : Audited t := by
  have hnone (workspaceId issueId : String) (audit : Audit) :
      ({} : Trail).audits workspaceId issueId ≠ some audit := (Option.some_ne_none audit).symm
  have hempty : Tracked {} ∧ Accounted {} :=
    ⟨⟨fun _ _ ↦ rfl, fun p hp ↦ absurd hp (Option.some_ne_none p).symm⟩,
      fun _ _ _ haudit ↦ absurd haudit (hnone _ _ _),
      fun _ _ _ haudit ↦ absurd haudit (hnone _ _ _), rfl⟩
  obtain ⟨htracked, haccounted⟩ := h.invariant (I := fun t ↦ Tracked t ∧ Accounted t) hempty
    fun t e t' ⟨htracked, haccounted⟩ hok hstep ↦
      ⟨htracked.step hstep, haccounted.step htracked hok hstep⟩
  refine ⟨fun workspaceId issueId audit haudit hlast ↦ ?_, fun hpass workspaceId issueId ↦ ?_,
    haccounted.once⟩
  · rw [← hlast]
    exact (haccounted.chain workspaceId issueId audit haudit).2
  · rw [htracked.seen, hpass]
    rfl

/-! ## Three runs -/

def sampleIssue (status : String) : IssueAuditSnapshot where
  title := "Market scan"
  status := status
  priority := "none"
  assignee := "@new-each-run"
  whatHash := "0"

def sampleDigest (snapshot : IssueAuditSnapshot) : String := snapshot.status

def samplePass (status : String) («at» : Int) : List TrailEvent :=
  [.observe "w" [("i", sampleIssue status)] (.unknown "direct-file-edit") «at», .next, .finish]

/-- An edit through OpenAlice is observed, and then an edit in the file. -/
def sampleRun : List TrailEvent :=
  [.observe "w" [("i", sampleIssue "todo")] .human 0,
    .edit "w" "i" (sampleIssue "todo") (sampleIssue "in_progress") .human 10] ++
    samplePass "in_progress" 20 ++ samplePass "done" 30

def returnRun : List TrailEvent :=
  .observe "w" [("i", sampleIssue "todo")] .human 0 ::
    (samplePass "done" 10 ++ samplePass "todo" 20 ++ samplePass "done" 30)

theorem mergesWell_of_none (h : coalescesWith records candidate activityUpdateCoalesceMs = none) :
    mergesWell records candidate since := by
  intro k previous hk
  rw [h] at hk
  cases hk

/-- Both edits are recorded, once, and lead from the first status to the last. -/
theorem audited_sample : Audited (after (trailStep sampleDigest) {} sampleRun) :=
  audited <| .of_after sampleRun rfl fun n e he ↦ match n with
    | 0 => by cases he; trivial
    | 1 => by
        cases he
        intro audit haudit _
        cases haudit
        exact ⟨rfl, by decide, mergesWell_of_none (by decide)⟩
    | 2 => by cases he; trivial
    | 3 => by
        cases he
        intro p issueId after rest hp hrest before audit mutation hbefore haudit hmutation
        cases hp
        cases hrest
        cases haudit
        cases hbefore
        obtain ⟨rfl, -⟩ := issueMutation_eq_some hmutation
        exact .inl ⟨rfl, by decide⟩
    | 4 => by cases he; trivial
    | 5 => by cases he; trivial
    | 6 => by
        cases he
        intro p issueId after rest hp hrest before audit mutation hbefore haudit hmutation
        cases hp
        cases hrest
        cases haudit
        cases hbefore
        obtain ⟨rfl, -⟩ := issueMutation_eq_some hmutation
        exact .inr ⟨rfl, by decide, mergesWell_of_none (by decide)⟩
    | 7 => by cases he; trivial

/-- **A state that comes back is dropped**: its fingerprint is in the store, and the trail says
that nothing has changed. -/
theorem return_dropped : ¬ ∀ (digest : IssueAuditSnapshot → String) (t : Trail),
    Reach (trailStep digest) anyStep {} t → Audited t := by
  intro h
  have haudited := h sampleDigest (after (trailStep sampleDigest) {} returnRun)
    (.of_after returnRun rfl fun _ _ _ ↦ trivial)
  have hcomposes := haudited.complete "w" "i"
    { baseline := sampleIssue "todo", since := 0, last := sampleIssue "done",
      seen := sampleIssue "done", attributed := [] } rfl rfl
  have hchanges : changes "w" "i" 0 (after (trailStep sampleDigest) {} returnRun).records =
      [] ++ [[]] := by decide
  rw [hchanges] at hcomposes
  obtain ⟨t, hnil, hleads⟩ := hcomposes.concat_inv
  rw [hnil.nil_inv] at hleads
  have hstatus := hleads.kept ("status", fun s ↦ some s.status)
    (List.mem_cons_of_mem _ List.mem_cons_self) rfl
  exact absurd hstatus (by decide)

end OpenAlice.Workspaces.Issues
