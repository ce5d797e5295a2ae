import Mathlib.Data.List.TakeDrop
import OpenAlice.Workspaces.Issues.Edits

/-!
# No edit is lost

Nothing keeps two calls from reading the same file, and the one that writes last writes over what
the other has written.  In a run in which a file is opened for writing only when it is as it was
read, and nobody is writing it, every file is what the edits that returned ok make of it, one
after the other (`edits_not_lost`).  How far one edit by itself reads as it was asked to is the
matter of `RoundTrip.lean`.
-/

namespace OpenAlice.Workspaces.Issues

open OpenAlice.Run

/-! ## Edits one after the other -/

section Sequence

variable (env : IssueEnv)

def Edit.land (edit : Edit) (file : Option Text) : Option (Option Text) :=
  (edit.written env file).toOption.map fun written ↦ some written.content

def landed (file : Option Text) (edits : List Edit) : Option (Option Text) :=
  edits.foldlM (fun file edit ↦ edit.land env file) file

def editsOf (id : Text) (edits : List Edit) : List Edit := edits.filter fun edit ↦ edit.id = id

def recordOf (id : Text) (file : Option Text) : Option IssueRecord :=
  file.bind fun raw ↦ (parseIssueContent env id raw).toOption

def Edit.ask (record : Option IssueRecord) (edit : Edit) : Option IssueRecord :=
  match edit.request with
  | .update patch => record.map (applyPatch env patch)
  | .create input => some (newRecord env edit.id input)

def Edit.Kept (edit : Edit) (file : Option Text) : Prop :=
  match edit.request, file with
  | .update patch, some raw => UpdateKept env edit.allowDesk edit.id raw patch
  | .update _, none => True
  | .create input, _ => CreateKept env input

def KeptThrough (file : Option Text) : List Edit → Prop
  | [] => True
  | edit :: edits => edit.Kept env file ∧ ∀ file', edit.land env file = some file' →
      KeptThrough file' edits

/-- An update leaves what `f` reads of a record. -/
def Edit.Leaves {β : Type} (f : IssueRecord → β) (edit : Edit) : Prop :=
  ∀ patch, edit.request = .update patch → ∀ issue, f (applyPatch env patch issue) = f issue

end Sequence

variable {env : IssueEnv} {edit : Edit} {edits before after : List Edit} {file file' : Option Text}
  {id : Text} {written : Written}

theorem Edit.land_eq_some : edit.land env file = some file' ↔
    ∃ written, edit.written env file = .ok written ∧ file' = some written.content := by
  rw [Edit.land, Option.map_eq_some_iff]
  constructor
  · rintro ⟨written, hwritten, rfl⟩
    cases h : edit.written env file with
    | error why =>
      rw [h] at hwritten
      cases hwritten
    | ok written' =>
      rw [h] at hwritten
      cases hwritten
      exact ⟨written, rfl, rfl⟩
  · rintro ⟨written, hwritten, rfl⟩
    exact ⟨written, by rw [hwritten]; rfl, rfl⟩

theorem landed_append (file : Option Text) (edits edits' : List Edit) :
    landed env file (edits ++ edits') =
      (landed env file edits).bind fun file' ↦ landed env file' edits' :=
  List.foldlM_append

theorem landed_cons (file : Option Text) (edit : Edit) (edits : List Edit) :
    landed env file (edit :: edits) = (edit.land env file).bind fun file' ↦ landed env file' edits :=
  rfl

theorem landed_singleton (file : Option Text) (edit : Edit) :
    landed env file [edit] = edit.land env file := by
  rw [landed_cons]
  exact Option.bind_fun_some _

theorem Edit.file_of_creates (hcreates : edit.creates = true)
    (h : edit.land env file = some file') : file = none := by
  obtain ⟨written, hwritten, -⟩ := Edit.land_eq_some.mp h
  obtain ⟨id, allowDesk, request⟩ := edit
  cases request with
  | update patch => cases hcreates
  | create input => exact (createIssue_ok hwritten).1

theorem landed_creates (h : landed env file edits = some file') : edits.countP Edit.creates ≤ 1 ∧
      (file.isSome = true → ∀ edit ∈ edits, edit.creates = false) := by
  induction edits generalizing file with
  | nil => exact ⟨Nat.zero_le _, fun _ _ hmem ↦ nomatch hmem⟩
  | cons edit edits ih =>
    rw [landed_cons, Option.bind_eq_some_iff] at h
    obtain ⟨file₁, hedit, hrest⟩ := h
    obtain ⟨-, hlater⟩ := ih hrest
    obtain ⟨written, -, rfl⟩ := Edit.land_eq_some.mp hedit
    have hnone : edits.countP Edit.creates = 0 := by
      rw [List.countP_eq_zero]
      intro e he
      rw [hlater rfl e he]
      exact Bool.false_ne_true
    constructor
    · rw [List.countP_cons, hnone]
      split <;> omega
    intro hfile e he
    rcases List.mem_cons.mp he with rfl | he
    · by_contra hcreates
      rw [e.file_of_creates (Bool.not_eq_false _ |>.mp hcreates) hedit] at hfile
      cases hfile
    · exact hlater rfl e he

theorem recordOf_land (hkept : edit.Kept env file) (h : edit.land env file = some file') :
    recordOf env edit.id file' = edit.ask env (recordOf env edit.id file) := by
  obtain ⟨written, hwritten, rfl⟩ := Edit.land_eq_some.mp h
  obtain ⟨id, allowDesk, request⟩ := edit
  cases request with
  | update patch =>
    obtain ⟨raw, split, data, current, data', what, rfl, hfile, -⟩ := updateIssueFields_ok hwritten
    obtain ⟨split', data', hfile', -⟩ :=
      (update_roundTrips_iff hwritten).mpr hkept split data current hfile
    show (parseIssueContent env id written.content).toOption =
      (parseIssueContent env id raw).toOption.map (applyPatch env patch)
    rw [hfile'.record, hfile.record]
    rfl
  | create input =>
    obtain ⟨split, data, hfile, -⟩ := (create_roundTrips_iff hwritten).mpr hkept
    show (parseIssueContent env id written.content).toOption = _
    rw [hfile.record]
    rfl

theorem recordOf_landed (hid : ∀ edit ∈ edits, edit.id = id) (hkept : KeptThrough env file edits)
    (h : landed env file edits = some file') :
    recordOf env id file' = edits.foldl (Edit.ask env) (recordOf env id file) := by
  induction edits generalizing file with
  | nil =>
    cases h
    rfl
  | cons edit edits ih =>
    rw [landed_cons, Option.bind_eq_some_iff] at h
    obtain ⟨file₁, hedit, hrest⟩ := h
    obtain rfl := hid edit (List.mem_cons_self ..)
    rw [ih (fun e he ↦ hid e (List.mem_cons_of_mem _ he)) (hkept.2 file₁ hedit) hrest,
      recordOf_land hkept.1 hedit, List.foldl_cons]

theorem map_foldl_ask {β : Type} {f : IssueRecord → β} (hupdates : ∀ e ∈ edits, e.creates = false)
    (hleaves : ∀ e ∈ edits, e.Leaves env f) (record : Option IssueRecord) :
    (edits.foldl (Edit.ask env) record).map f = record.map f := by
  induction edits generalizing record with
  | nil => rfl
  | cons edit edits ih =>
    rw [List.forall_mem_cons] at hupdates hleaves
    rw [List.foldl_cons, ih hupdates.2 hleaves.2]
    obtain ⟨id, allowDesk, request⟩ := edit
    cases request with
    | create input => cases hupdates.1
    | update patch =>
      show (record.map (applyPatch env patch)).map f = record.map f
      rw [Option.map_map]
      congr 1
      funext issue
      exact hleaves.1 patch rfl issue

theorem field_landed {β : Type} {f : IssueRecord → β}
    (hid : ∀ e ∈ before ++ edit :: after, e.id = id)
    (hkept : KeptThrough env file (before ++ edit :: after))
    (h : landed env file (before ++ edit :: after) = some file')
    (hleaves : ∀ e ∈ after, e.Leaves env f) :
    (recordOf env id file').map f =
      ((before ++ [edit]).foldl (Edit.ask env) (recordOf env id file)).map f := by
  have hsplit : before ++ edit :: after = before ++ [edit] ++ after := by
    rw [List.append_assoc, List.singleton_append]
  rw [recordOf_landed hid hkept h, hsplit, List.foldl_append]
  refine map_foldl_ask ?_ hleaves _
  rw [hsplit, landed_append, Option.bind_eq_some_iff] at h
  obtain ⟨file₁, hfirst, hafter⟩ := h
  rw [landed_append, Option.bind_eq_some_iff] at hfirst
  obtain ⟨file₀, -, hedit⟩ := hfirst
  rw [landed_singleton, Edit.land_eq_some] at hedit
  obtain ⟨written, -, rfl⟩ := hedit
  exact (landed_creates hafter).2 rfl

/-! ## Runs -/

section Runs

variable {init : Files} {W W' : World IssueStore EditTask} {i : Nat} {k k' : EditTask}
  {store : IssueStore} {begun rest : Text} {issue : IssueRecord}

def Undisturbed (W : World IssueStore EditTask) : Event IssueCall FileAnswer → Prop
  | .resume i .opened => ∀ edit file written, W.tasks[i]? = some (.opening edit file written) →
      W.shared.files edit.id = file ∧ Resting W edit.id
  | _ => True

def EditTask.made (id : Text) (k : EditTask) : Bool :=
  k.edit?.any fun edit ↦ edit.creates && edit.id = id

/-- **No edit is lost.** -/
structure NothingLost (env : IssueEnv) (init : Files) (W : World IssueStore EditTask) : Prop where
  /-- What has returned ok is what is written. -/
  returned : W.shared.log.Perm (W.tasks.filterMap EditTask.edit?)
  /-- A file that nobody is writing is what the edits make of it, one after the other. -/
  serial : ∀ id, Resting W id →
    landed env (init id) (editsOf id W.shared.log) = some (W.shared.files id)
  /-- Where each edit by itself reads as it was asked to, every value asked for is read, until
  another edit asks for its field. -/
  reflected : ∀ id, Resting W id → KeptThrough env (init id) (editsOf id W.shared.log) →
    ∀ {β : Type} (f : IssueRecord → β) before edit after,
      editsOf id W.shared.log = before ++ edit :: after → (∀ e ∈ after, e.Leaves env f) →
        (recordOf env id (W.shared.files id)).map f =
          ((before ++ [edit]).foldl (Edit.ask env) (recordOf env id (init id))).map f
  madeOnce : ∀ id, W.tasks.countP (EditTask.made id) ≤ 1

/-- What is written of a file that is open. -/
structure Begun (env : IssueEnv) (init : Files) (store : IssueStore) (edit : Edit)
    (begun rest : Text) (issue : IssueRecord) : Prop where
  file : store.files edit.id = some begun
  written : ∃ file written, landed env (init edit.id) (editsOf edit.id store.log) = some file ∧
    edit.written env file = .ok written ∧ begun ++ rest = written.content ∧ written.issue = issue

/-- What holds in every state. -/
structure Serial (env : IssueEnv) (init : Files) (W : World IssueStore EditTask) : Prop where
  returned : W.shared.log.Perm (W.tasks.filterMap EditTask.edit?)
  resting : ∀ id, Resting W id →
    landed env (init id) (editsOf id W.shared.log) = some (W.shared.files id)
  opening : ∀ (i : Nat) edit file written, W.tasks[i]? = some (.opening edit file written) →
    edit.written env file = .ok written
  writing : ∀ (i : Nat) edit begun rest issue, W.tasks[i]? = some (.writing edit begun rest issue) →
      Begun env init W.shared edit begun rest issue
  alone : ∀ (i j : Nat) edit begun rest issue edit' begun' rest' issue',
    W.tasks[i]? = some (.writing edit begun rest issue) →
    W.tasks[j]? = some (.writing edit' begun' rest' issue') → edit.id = edit'.id → i = j

theorem editsOf_concat_self (edits : List Edit) (edit : Edit) :
    editsOf edit.id (edits ++ [edit]) = editsOf edit.id edits ++ [edit] := by
  rw [editsOf, List.filter_append, List.filter_cons_of_pos (by simp)]
  rfl

theorem editsOf_concat_of_ne (h : id ≠ edit.id) (edits : List Edit) :
    editsOf id (edits ++ [edit]) = editsOf id edits := by
  rw [editsOf, List.filter_append, List.filter_cons_of_neg (by simpa using Ne.symm h)]
  exact List.append_nil _

theorem serial_fresh (init : Files) : Serial env init (fresh init) where
  returned := List.Perm.refl _
  resting _ _ := rfl
  opening _ _ _ _ h := by cases h
  writing _ _ _ _ _ h := by cases h
  alone _ _ _ _ _ _ _ _ _ _ h := by cases h

theorem writeAt_end (begun piece : Text) : writeAt begun begun.length piece = begun ++ piece := by
  have hleft := List.takeD_left begun [] (Char.ofNat 0)
  rw [List.append_nil] at hleft
  rw [writeAt, hleft, List.drop_eq_nil_of_le (Nat.le_add_right _ _), List.append_nil]

theorem returned_set (hi : W.tasks[i]? = some k) (hk : k.edit? = none) (k' : EditTask) :
    ((W.tasks.set i k').filterMap EditTask.edit?).Perm
      (W.tasks.filterMap EditTask.edit? ++ k'.edit?.toList) := by
  obtain ⟨before, after, htasks, hset⟩ := World.split_task hi
  rw [hset, htasks, List.filterMap_append, List.filterMap_append, List.filterMap_cons_none hk,
    List.append_assoc]
  cases hk' : k'.edit? with
  | none =>
    rw [List.filterMap_cons_none hk', Option.toList_none, List.append_nil]
  | some edit =>
    rw [List.filterMap_cons_some hk', Option.toList_some]
    exact (List.perm_append_comm.trans (List.Perm.refl _) : ([edit] ++ _).Perm _).append_left _

theorem returned_quiet (hi : W.tasks[i]? = some k) (hk : k.edit? = none) (hk' : k'.edit? = none) :
    ((W.tasks.set i k').filterMap EditTask.edit?).Perm (W.tasks.filterMap EditTask.edit?) := by
  have hset := returned_set hi hk k'
  rwa [hk', Option.toList_none, List.append_nil] at hset

theorem Serial.quiet (h : Serial env init W) (hshared : W'.shared = W.shared)
    (hreturned : (W'.tasks.filterMap EditTask.edit?).Perm (W.tasks.filterMap EditTask.edit?))
    (hwriting : ∀ (j : Nat) edit begun rest issue,
      W'.tasks[j]? = some (.writing edit begun rest issue) ↔
        W.tasks[j]? = some (.writing edit begun rest issue))
    (hopening : ∀ (j : Nat) edit file written, W'.tasks[j]? = some (.opening edit file written) →
      edit.written env file = .ok written) : Serial env init W' where
  returned := hshared ▸ h.returned.trans hreturned.symm
  resting id hrest := by
    rw [hshared]
    exact h.resting id fun j edit begun rest issue hj ↦
      hrest j edit begun rest issue ((hwriting ..).mpr hj)
  opening := hopening
  writing j edit begun rest issue hj := by
    rw [hshared]
    exact h.writing j edit begun rest issue ((hwriting ..).mp hj)
  alone i j _ _ _ _ _ _ _ _ hi hj hid :=
    h.alone i j _ _ _ _ _ _ _ _ ((hwriting ..).mp hi) ((hwriting ..).mp hj) hid

theorem Serial.call (h : Serial env init W) (c : IssueCall) : Serial env init
      ⟨(startEdit W.shared W.tasks.length c).1, W.tasks ++ [(startEdit W.shared W.tasks.length c).2]⟩ := by
  obtain ⟨hshared, k, hk, hnone, hquiet⟩ : (startEdit W.shared W.tasks.length c).1 = W.shared ∧
      ∃ k, (startEdit W.shared W.tasks.length c).2 = k ∧ k.edit? = none ∧
        ((∃ why, k = .refused why) ∨ ∃ edit, k = .reading edit) := by
    cases c with
    | update id patch allowDesk =>
      refine ⟨rfl, _, rfl, ?_⟩
      rw [startEdit]
      split_ifs
      · exact ⟨rfl, .inr ⟨_, rfl⟩⟩
      · exact ⟨rfl, .inl ⟨_, rfl⟩⟩
    | create input allowDesk =>
      refine ⟨rfl, _, rfl, ?_⟩
      rw [startEdit]
      cases createId input with
      | error why => exact ⟨rfl, .inl ⟨_, rfl⟩⟩
      | ok id => exact ⟨rfl, .inr ⟨_, rfl⟩⟩
  rw [hk]
  have hold : ∀ {j : Nat} {k' : EditTask}, k' ≠ k →
      ((W.tasks ++ [k])[j]? = some k' ↔ W.tasks[j]? = some k') := by
    intro j k' hne
    constructor
    · intro hj
      rcases World.task_append hj with hold | ⟨-, heq⟩
      · exact hold
      · exact absurd heq hne
    · intro hj
      exact (List.getElem?_append_left (List.getElem?_eq_some_iff.mp hj).1).trans hj
  refine h.quiet hshared ?_ (fun j edit begun rest issue ↦ hold ?_) ?_
  · rw [List.filterMap_append, List.filterMap_cons_none hnone, List.filterMap_nil, List.append_nil]
  · rcases hquiet with ⟨why, rfl⟩ | ⟨edit, rfl⟩ <;> nofun
  · intro j edit file written hj
    refine h.opening j edit file written ((hold ?_).mp hj)
    rcases hquiet with ⟨why, rfl⟩ | ⟨edit, rfl⟩ <;> nofun

theorem Serial.move (h : Serial env init W) (hi : W.tasks[i]? = some k) (hk : k.edit? = none)
    (hothers : ∀ (j : Nat) edit begun rest issue, j ≠ i →
      W.tasks[j]? = some (.writing edit begun rest issue) → edit.id ≠ id)
    (howner : ∀ edit begun rest issue, k = .writing edit begun rest issue → edit.id = id)
    (hfiles : ∀ id', id' ≠ id → store.files id' = W.shared.files id')
    (hlog : ∀ id', id' ≠ id → editsOf id' store.log = editsOf id' W.shared.log)
    (hreturned : store.log.Perm (W.shared.log ++ k'.edit?.toList))
    (hopening : ∀ edit file written, k' ≠ .opening edit file written)
    (hwriting : ∀ edit begun rest issue, k' = .writing edit begun rest issue →
      edit.id = id ∧ Begun env init store edit begun rest issue)
    (hresting : (∀ edit begun rest issue, k' ≠ .writing edit begun rest issue) →
      landed env (init id) (editsOf id store.log) = some (store.files id)) :
    Serial env init ⟨store, W.tasks.set i k'⟩ := by
  have self : (W.tasks.set i k')[i]? = some k' :=
    List.getElem?_set_self (List.getElem?_eq_some_iff.mp hi).1
  constructor
  case returned =>
    exact hreturned.trans ((h.returned.append_right _).trans (returned_set hi hk k').symm)
  case resting =>
    intro id' hrest'
    by_cases hid : id' = id
    · subst hid
      refine hresting fun edit begun rest issue hk' ↦ ?_
      exact hrest' i edit begun rest issue (hk' ▸ self) (hwriting edit begun rest issue hk').1
    show landed env (init id') (editsOf id' store.log) = some (store.files id')
    rw [hfiles id' hid, hlog id' hid]
    refine h.resting id' fun j edit begun rest issue hj ↦ ?_
    by_cases hij : i = j
    · subst hij
      rw [howner edit begun rest issue (Option.some.inj (hi.symm.trans hj))]
      exact Ne.symm hid
    · exact hrest' j edit begun rest issue ((List.getElem?_set_ne hij).trans hj)
  case opening =>
    intro j edit file written hj
    rcases World.task_set hj with ⟨-, hk'⟩ | ⟨-, hold⟩
    · exact absurd hk'.symm (hopening edit file written)
    · exact h.opening j edit file written hold
  case writing =>
    intro j edit begun rest issue hj
    rcases World.task_set hj with ⟨-, hk'⟩ | ⟨hji, hold⟩
    · exact (hwriting edit begun rest issue hk'.symm).2
    have hne := hothers j edit begun rest issue hji hold
    obtain ⟨hbegun, hwritten⟩ := h.writing j edit begun rest issue hold
    exact ⟨(hfiles _ hne).trans hbegun, (hlog _ hne).symm ▸ hwritten⟩
  case alone =>
    intro j j' edit _ _ _ edit' _ _ _ hj hj' hid
    rcases World.task_set hj with ⟨rfl, hk'⟩ | ⟨hji, hold⟩
    · rcases World.task_set hj' with ⟨rfl, -⟩ | ⟨hji', hold'⟩
      · rfl
      · rw [(hwriting _ _ _ _ hk'.symm).1] at hid
        exact absurd hid.symm (hothers _ _ _ _ _ hji' hold')
    rcases World.task_set hj' with ⟨rfl, hk'⟩ | ⟨-, hold'⟩
    · rw [(hwriting _ _ _ _ hk'.symm).1] at hid
      exact absurd hid (hothers _ _ _ _ _ hji hold)
    · exact h.alone _ _ _ _ _ _ _ _ _ _ hold hold' hid

theorem Serial.opened (h : Serial env init W) (hi : W.tasks[i]? = some (.opening edit file written))
    (hfile : W.shared.files edit.id = file) (hrest : Resting W edit.id) :
    Serial env init ⟨{ W.shared with files := Function.update W.shared.files edit.id (some []) },
        W.tasks.set i (.writing edit [] written.content written.issue)⟩ := by
  refine h.move hi rfl (fun j _ _ _ _ _ hj ↦ hrest j _ _ _ _ hj) (fun _ _ _ _ hk ↦ nomatch hk)
    (fun _ hne ↦ Function.update_of_ne hne ..) (fun _ _ ↦ rfl) ?_ (fun _ _ _ ↦ nofun) ?_
    fun hno ↦ absurd rfl (hno _ _ _ _)
  · exact List.Perm.of_eq (List.append_nil _).symm
  intro _ _ _ _ hk
  cases hk
  refine ⟨rfl, Function.update_self .., file, written, ?_, h.opening i edit file written hi, rfl, rfl⟩
  rw [← hfile]
  exact h.resting edit.id hrest

section Writing

variable (h : Serial env init W) (hi : W.tasks[i]? = some (.writing edit begun rest issue))
include h hi

theorem Serial.others (j : Nat) (edit' : Edit) (begun' rest' : Text) (issue' : IssueRecord)
    (hji : j ≠ i) (hj : W.tasks[j]? = some (.writing edit' begun' rest' issue')) :
    edit'.id ≠ edit.id :=
  fun hid ↦ hji (h.alone _ _ _ _ _ _ _ _ _ _ hj hi hid)

theorem Serial.wrote (n : Nat) :
    Serial env init
      ⟨{ W.shared with files :=
          Function.update W.shared.files edit.id (some (begun ++ rest.take n)) },
        W.tasks.set i (.writing edit (begun ++ rest.take n) (rest.drop n) issue)⟩ := by
  refine h.move hi rfl (h.others hi) ?_ (fun _ hne ↦ Function.update_of_ne hne ..)
    (fun _ _ ↦ rfl) ?_ (fun _ _ _ ↦ nofun) ?_ fun hno ↦ absurd rfl (hno _ _ _ _)
  · intro _ _ _ _ hk
    cases hk
    rfl
  · exact List.Perm.of_eq (List.append_nil _).symm
  · intro _ _ _ _ hk
    cases hk
    obtain ⟨-, file, written, hlanded, hwritten, hcontent, hissue⟩ := h.writing _ _ _ _ _ hi
    refine ⟨rfl, Function.update_self .., file, written, hlanded, hwritten, ?_, hissue⟩
    rw [List.append_assoc, List.take_append_drop, hcontent]

theorem Serial.done : Serial env init
      ⟨{ files := Function.update W.shared.files edit.id (some (begun ++ rest)),
          log := W.shared.log ++ [edit] },
        W.tasks.set i (.returned edit issue)⟩ := by
  refine h.move hi rfl (h.others hi) ?_ (fun _ hne ↦ Function.update_of_ne hne ..)
    (fun _ hne ↦ editsOf_concat_of_ne hne _) (List.Perm.refl _) (fun _ _ _ ↦ nofun)
    (fun _ _ _ _ hk ↦ nomatch hk) fun _ ↦ ?_
  · intro _ _ _ _ hk
    cases hk
    rfl
  · obtain ⟨-, file, written, hlanded, hwritten, hcontent, -⟩ := h.writing _ _ _ _ _ hi
    rw [editsOf_concat_self, landed_append, hlanded, Option.bind_some, landed_singleton,
      Edit.land_eq_some]
    exact ⟨written, hwritten, by rw [hcontent]; exact Function.update_self ..⟩

end Writing

theorem Serial.read (h : Serial env init W) (hi : W.tasks[i]? = some (.reading edit))
    (hk' : k'.edit? = none) (hno : ∀ edit begun rest issue, k' ≠ .writing edit begun rest issue)
    (hopening : ∀ edit file written, k' = .opening edit file written →
      edit.written env file = .ok written) :
    Serial env init ⟨W.shared, W.tasks.set i k'⟩ := by
  refine h.quiet rfl (returned_quiet hi rfl hk') ?_ ?_
  · intro j edit' begun rest issue
    exact World.task_set_iff hi nofun (hno _ _ _ _)
  intro j edit' file written hj
  rcases World.task_set hj with ⟨-, heq⟩ | ⟨-, hold⟩
  · exact hopening _ _ _ heq.symm
  · exact h.opening j edit' file written hold

theorem Serial.step (h : Serial env init W) {e : Event IssueCall FileAnswer}
    (hok : Undisturbed W e) (hstep : (mutate env).step W e = some W') :
    Serial env init W' := by
  cases e with
  | call c =>
    cases Prog.step_call hstep
    exact h.call c
  | resume i r =>
    obtain ⟨k, store, k', hi, hresume, rfl⟩ := Prog.step_resume hstep
    cases k with
    | refused why => cases hresume
    | returned edit issue => cases hresume
    | reading edit =>
      cases r with
      | opened => cases hresume
      | wrote n => cases hresume
      | read =>
        simp only [mutate, resumeEdit] at hresume
        cases hwritten : edit.written env (W.shared.files edit.id) with
        | error why =>
          rw [hwritten] at hresume
          cases hresume
          exact h.read hi rfl (fun _ _ _ _ ↦ nofun) fun _ _ _ hk ↦ nomatch hk
        | ok written =>
          rw [hwritten] at hresume
          cases hresume
          refine h.read hi rfl (fun _ _ _ _ ↦ nofun) fun _ _ _ hk ↦ ?_
          cases hk
          exact hwritten
    | opening edit file written =>
      cases r with
      | read => cases hresume
      | wrote n => cases hresume
      | opened =>
        cases hresume
        obtain ⟨hfile, hrest⟩ := hok edit file written hi
        exact h.opened hi hfile hrest
    | writing edit begun rest issue =>
      cases r with
      | read => cases hresume
      | opened => cases hresume
      | wrote n =>
        simp only [mutate, resumeEdit, (h.writing i edit begun rest issue hi).file,
          Option.getD_some, writeAt_end] at hresume
        split_ifs at hresume with hdone
        · cases hresume
          have hall : rest.take n = rest := List.take_of_length_le (List.drop_eq_nil_iff.mp hdone)
          rw [hall]
          exact h.done hi
        · cases hresume
          exact h.wrote hi n

theorem Serial.landed (h : Serial env init W) (id : Text) :
    ∃ file, landed env (init id) (editsOf id W.shared.log) = some file := by
  by_cases hrest : Resting W id
  · exact ⟨_, h.resting id hrest⟩
  rw [Resting] at hrest
  push Not at hrest
  obtain ⟨i, edit, begun, rest, issue, hi, rfl⟩ := hrest
  obtain ⟨-, file, -, hlanded, -⟩ := h.writing i edit begun rest issue hi
  exact ⟨file, hlanded⟩

theorem countP_made (h : W.shared.log.Perm (W.tasks.filterMap EditTask.edit?)) (id : Text) :
    W.tasks.countP (EditTask.made id) = (editsOf id W.shared.log).countP Edit.creates := by
  rw [editsOf, List.countP_filter, h.countP_eq, List.countP_filterMap]
  congr 1
  funext k
  rw [EditTask.made]
  cases k.edit? <;> rfl

/-- **No edit is lost**, in a run in which a file is opened for writing only when it is as it was
read, and nobody is writing it. -/
theorem edits_not_lost (h : Reach (mutate env).step Undisturbed (fresh init) W) :
    NothingLost env init W := by
  have hserial := h.invariant (serial_fresh init) fun _ _ _ hW hok hstep ↦ hW.step hok hstep
  constructor
  case returned => exact hserial.returned
  case serial => exact hserial.resting
  case reflected =>
    intro id hrest hkept β f before edit after hedits hleaves
    have hid : ∀ e ∈ editsOf id W.shared.log, e.id = id := by
      intro e he
      simpa using (List.mem_filter.mp he).2
    have hlanded := hserial.resting id hrest
    rw [hedits] at hid hkept hlanded
    exact field_landed hid hkept hlanded hleaves
  case madeOnce =>
    intro id
    obtain ⟨file, hlanded⟩ := hserial.landed id
    rw [countP_made hserial.returned]
    exact (landed_creates hlanded).1

end Runs

/-! ## Runs to evaluate -/

/-- Some mappings, and what `yaml` writes for them. -/
def boardYaml : List (Mapping × Text) :=
  [(planData, "title: Plan".toList),
    (planData ++ [("status", .str "done".toList)], "title: Plan\nstatus: done".toList),
    (planData ++ [("priority", .str "high".toList)], "title: Plan\npriority: high".toList),
    (planData ++ [("status", .str "done".toList), ("priority", .str "high".toList)],
      "title: Plan\nstatus: done\npriority: high".toList)]

def boardEnv : IssueEnv where
  parseYaml text :=
    ((boardYaml.find? fun entry ↦ trimEnd text = entry.2).map fun entry ↦ .map entry.1).elim
      (.error "not a mapping") .ok
  stringifyYaml data :=
    ((boardYaml.find? fun entry ↦ codeEntries data = codeEntries entry.1).map fun entry ↦
      entry.2 ++ ['\n']).getD []
  isValidScheduleTimezone _ := true

def boardFiles : Files := fun id ↦ if id = "plan".toList then some (planFile "") else none

def boardCalls : List (Event IssueCall FileAnswer) :=
  [.call (.update "plan".toList { status := some "done".toList } false),
    .call (.update "plan".toList { priority := some "high".toList } false)]

/-- Each call runs to its end before the other begins. -/
def inTurn : List (Event IssueCall FileAnswer) :=
  boardCalls ++ [.resume 0 .read, .resume 0 .opened, .resume 0 (.wrote 1000), .resume 1 .read,
    .resume 1 .opened, .resume 1 (.wrote 1000)]

def together : List (Event IssueCall FileAnswer) :=
  boardCalls ++ [.resume 0 .read, .resume 1 .read, .resume 0 .opened, .resume 0 (.wrote 1000),
    .resume 1 .opened, .resume 1 (.wrote 1000)]

def EditTask.writes : EditTask → Bool
  | .writing .. => true
  | _ => false

/-- If the call is about to write, the file is as it has read it. -/
def EditTask.upToDate (files : Files) : EditTask → Bool
  | .opening edit file _ => files edit.id = file
  | _ => true

theorem resting_of_not_writes {W : World IssueStore EditTask} {id : Text}
    (h : ∀ k ∈ W.tasks, k.writes = false) : Resting W id :=
  fun _ _ _ _ _ hi ↦ nomatch h _ (List.mem_of_getElem? hi)

theorem undisturbed_of_upToDate {W : World IssueStore EditTask} {i : Nat}
    (hwrites : ∀ k ∈ W.tasks, k.writes = false)
    (h : ∀ k ∈ W.tasks[i]?, k.upToDate W.shared.files = true) :
    Undisturbed W (.resume i .opened) :=
  fun _ _ _ hi ↦ ⟨of_decide_eq_true (h _ hi), resting_of_not_writes hwrites⟩

/-- Two updates, one after the other: the Issue has the status and the priority. -/
theorem edits_not_lost_inTurn :
    ∃ W, NothingLost boardEnv boardFiles W ∧ (∀ k ∈ W.tasks, k.edit?.isSome = true) ∧
      (recordOf boardEnv "plan".toList (W.shared.files "plan".toList)).map
        (fun issue ↦ (issue.status, issue.priority)) = some (.done, .high) := by
  refine ⟨after (mutate boardEnv).step (fresh boardFiles) inTurn, edits_not_lost ?_, by decide,
    by decide⟩
  refine Reach.of_after inTurn (by decide) fun n e he ↦ ?_
  match n with
  | 0 | 1 | 2 | 4 | 5 | 7 =>
    cases he
    trivial
  | 3 =>
    cases he
    exact undisturbed_of_upToDate (by decide) (by decide)
  | 6 =>
    cases he
    exact undisturbed_of_upToDate (by decide) (by decide)
  | n + 8 => cases he

/-- Two updates that both read first: both return ok, and the status is lost. -/
theorem edits_lost : ∃ W, Reach (mutate boardEnv).step anyStep (fresh boardFiles) W ∧
    (∀ k ∈ W.tasks, k.edit?.isSome = true) ∧
    (recordOf boardEnv "plan".toList (W.shared.files "plan".toList)).map
      (fun issue ↦ (issue.status, issue.priority)) = some (.todo, .high) ∧
    ¬ NothingLost boardEnv boardFiles W := by
  refine ⟨after (mutate boardEnv).step (fresh boardFiles) together,
    Reach.of_after together (by decide) fun _ _ _ ↦ trivial, by decide, by decide, fun h ↦ ?_⟩
  have hserial := h.serial "plan".toList (resting_of_not_writes (by decide))
  exact absurd hserial (by decide)

end OpenAlice.Workspaces.Issues
