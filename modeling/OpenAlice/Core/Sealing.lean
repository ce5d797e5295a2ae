import OpenAlice.Data.Base64
import OpenAlice.Data.Trimmed
import OpenAlice.Run.Tasks
import OpenAlice.Scheduling.Scanner

/-!
# Sealed files and their key

`seal` and `unseal` of `src/core/sealing.ts`: an envelope holds a JSON value encrypted under
the key of the machine, which the first `seal` creates.

The key file is its text, when there is one.  AES-256-GCM and `JSON` are a parameter with the
two inverse laws that the code relies on.  A call of `seal` suspends at every operation on the
key file: its reading, and where there is none, `mkdir`, the opening of the file (which
truncates it), the writing and `chmod`.  Each of these may fail.

One call at a time creates the key in `sealed_opens`.  Two that find no key file each write
one, and what was sealed under the first is lost (`sealed_lost`).
-/

namespace OpenAlice.Core

open OpenAlice.Data OpenAlice.Run

/-! ## Keys and envelopes -/

abbrev Bytes := List UInt8

def keyBytes : Nat := 32

abbrev Key := { bytes : Bytes // bytes.length = keyBytes }

/-- `ALG` -/
def sealingAlg : String := "aes-256-gcm"

/-- `SealedEnvelope`, the texts of its fields as they are in JSON. -/
structure SealedEnvelope where
  alg : String
  iv : List Char
  tag : List Char
  data : List Char

structure SealingCodec (J : Type) where
  /-- `JSON.stringify`, as bytes of UTF-8. -/
  stringify : J → Bytes
  /-- `JSON.parse` of bytes of UTF-8, when it does not throw. -/
  parse : Bytes → Option J
  parse_stringify : ∀ value, parse (stringify value) = some value
  /-- `createCipheriv`: the tag and the data, from the key, the vector and the plain text. -/
  encrypt : Key → Bytes → Bytes → Bytes × Bytes
  /-- `createDecipheriv`, from the key, the vector, the tag and the data, when they
  authenticate. -/
  decrypt : Key → Bytes → Bytes → Bytes → Option Bytes
  decrypt_encrypt : ∀ key iv plaintext,
    decrypt key iv (encrypt key iv plaintext).1 (encrypt key iv plaintext).2 = some plaintext

variable {J : Type} (codec : SealingCodec J)

def keyText (key : Key) : List Char := encode64 key.val ++ ['\n']

def keyOfText (raw : List Char) : Option Key :=
  let bytes := decode64 (Scheduling.trim raw)
  if h : bytes.length = keyBytes then some ⟨bytes, h⟩ else none

/-- The end of `seal`, with its key. -/
def envelope (key : Key) (iv : Bytes) (value : J) : SealedEnvelope where
  alg := sealingAlg
  iv := encode64 iv
  tag := encode64 (codec.encrypt key iv (codec.stringify value)).1
  data := encode64 (codec.encrypt key iv (codec.stringify value)).2

/-- `unseal`, with `none` for an `UnsealError`. -/
def SealedEnvelope.unseal (keyFile : Option (List Char)) (e : SealedEnvelope) : Option J :=
  if e.alg ≠ sealingAlg then none
  else do
    let raw ← keyFile
    let key ← keyOfText raw
    let plaintext ← codec.decrypt key (decode64 e.iv) (decode64 e.tag) (decode64 e.data)
    codec.parse plaintext

/-! ## Calls of `seal` -/

/-- Where a call of `seal` stands. -/
inductive SealPhase (J : Type) where
  /-- In `readFile` of the key. -/
  | reading (value : J)
  /-- In `mkdir`, with the key that it has drawn. -/
  | making (value : J) (key : Key)
  /-- In `writeFile`, before the file is opened. -/
  | opening (value : J) (key : Key)
  /-- In `writeFile`, with the file open and empty. -/
  | writing (value : J) (key : Key)
  /-- In `chmod`. -/
  | chmodding (value : J) (key : Key)
  | resolved (value : J) (e : SealedEnvelope)
  | rejected

inductive SealAnswer where
  /-- It succeeds; `key` and `iv` are the random bytes that the call draws next. -/
  | done (key : Key) (iv : Bytes)
  /-- It fails, for `readFile` otherwise than by `ENOENT`. -/
  | failed (iv : Bytes)

def sealResume (keyFile : Option (List Char)) :
    SealPhase J → SealAnswer → Option (Option (List Char) × SealPhase J)
  | .reading value, .done fresh iv =>
    match keyFile with
    | none => some (keyFile, .making value fresh)
    | some raw =>
      match keyOfText raw with
      | none => some (keyFile, .rejected)
      | some key => some (keyFile, .resolved value (envelope codec key iv value))
  | .reading _, .failed _ => some (keyFile, .rejected)
  | .making value key, .done _ _ => some (keyFile, .opening value key)
  | .making _ _, .failed _ => some (keyFile, .rejected)
  | .opening value key, .done _ _ => some (some [], .writing value key)
  | .opening _ _, .failed _ => some (keyFile, .rejected)
  | .writing value key, .done _ _ => some (some (keyText key), .chmodding value key)
  | .writing _ _, .failed _ => some (keyFile, .rejected)
  | .chmodding value key, .done _ iv | .chmodding value key, .failed iv =>
    some (keyFile, .resolved value (envelope codec key iv value))
  | .resolved _ _, _ => none
  | .rejected, _ => none

/-- The calls of `seal`, over the text of the key file. -/
def sealing : Prog (Option (List Char)) (SealPhase J) J SealAnswer where
  start keyFile _ value := (keyFile, .reading value)
  resume keyFile _ := sealResume codec keyFile

/-- The call has found no key file and has not written one yet. -/
def SealPhase.creating : SealPhase J → Bool
  | .making _ _ | .opening _ _ | .writing _ _ => true
  | _ => false

def SealPhase.sealed : SealPhase J → Bool
  | .resolved _ _ => true
  | _ => false

variable {codec}

/-! ## A key in its file -/

theorem value64_of_isSpace {c : Char} (h : Scheduling.isSpace c = true) : value64 c = none := by
  have hcode : c.toNat ≤ 32 ∨ 127 < c.toNat := by
    simp only [Scheduling.isSpace, List.contains_cons, List.contains_nil, Bool.or_eq_true,
      beq_iff_eq, Bool.and_eq_true, decide_eq_true_eq, Bool.false_eq_true, or_false] at h
    omega
  have hplus : c ≠ '+' ∧ c ≠ '-' ∧ c ≠ '/' ∧ c ≠ '_' := by
    refine ⟨?_, ?_, ?_, ?_⟩ <;> rintro rfl <;> exact absurd hcode (by decide)
  rw [value64, if_neg (by omega), if_neg (by omega), if_neg (by omega),
    if_neg (not_or.mpr ⟨hplus.1, hplus.2.1⟩), if_neg (not_or.mpr hplus.2.2)]

theorem decode64_trim (raw : List Char) : decode64 (Scheduling.trim raw) = decode64 raw := by
  obtain ⟨before, after, hraw, hbefore, hafter⟩ := exists_trimBy Scheduling.isSpace raw
  conv_rhs => rw [hraw]
  exact (decode64_surround (fun c hc ↦ value64_of_isSpace (hbefore c hc))
    (fun c hc ↦ value64_of_isSpace (hafter c hc)) _).symm

@[simp] theorem keyOfText_keyText (key : Key) : keyOfText (keyText key) = some key := by
  have hbytes : decode64 (Scheduling.trim (keyText key)) = key.val := by
    have hend := decode64_surround (List.forall_mem_nil _)
      (List.forall_mem_singleton.mpr (by rfl : value64 '\n' = none)) (encode64 key.val)
    rw [decode64_trim, keyText]
    rw [List.nil_append] at hend
    rw [hend, decode64_encode64]
  rw [keyOfText]
  simp only [hbytes, key.property, dite_true]

theorem keyOfText_nil : keyOfText [] = none := rfl

variable {keyFile : Option (List Char)}

theorem unseal_envelope {key key' : Key}
    (h : keyFile.bind keyOfText = some key') (iv : Bytes) (value : J) :
    (envelope codec key iv value).unseal codec keyFile =
      (codec.decrypt key' iv (codec.encrypt key iv (codec.stringify value)).1
        (codec.encrypt key iv (codec.stringify value)).2).bind codec.parse := by
  obtain ⟨raw, rfl, hkey⟩ := Option.bind_eq_some_iff.mp h
  have halg : ¬ (envelope codec key iv value).alg ≠ sealingAlg := not_not.mpr rfl
  rw [SealedEnvelope.unseal, if_neg halg]
  simp only [Option.bind_eq_bind, Option.bind_some, hkey, envelope, decode64_encode64]

theorem unseal_envelope_self {key : Key}
    (h : keyFile.bind keyOfText = some key) (iv : Bytes) (value : J) :
    (envelope codec key iv value).unseal codec keyFile = some value := by
  rw [unseal_envelope h, codec.decrypt_encrypt, Option.bind_some, codec.parse_stringify]

/-! ## One creator -/

/-- **A call begins to create the key only while no other does**: when it finds no key file,
no other call has found none that has not written it yet. -/
def oneCreator (W : World (Option (List Char)) (SealPhase J)) : Event J SealAnswer → Prop
  | .resume i (.done _ _) => ∀ value, W.tasks[i]? = some (.reading value) → W.shared = none →
      ∀ (j : Nat) p, W.tasks[j]? = some p → p.creating = false
  | _ => True

def Fits (codec : SealingCodec J) (keyFile : Option (List Char)) : SealPhase J → Prop
  | .reading _ | .rejected => True
  | .making _ _ | .opening _ _ => keyFile = none
  | .writing _ _ => keyFile = some []
  | .chmodding _ key => keyFile.bind keyOfText = some key
  | .resolved value e => ∃ key iv, e = envelope codec key iv value ∧
      keyFile.bind keyOfText = some key

theorem Fits.no_key {p : SealPhase J} (h : Fits codec keyFile p)
    (hp : p.creating = true) : keyFile.bind keyOfText = none := by
  cases p with
  | making | opening =>
    rw [show keyFile = none from h]
    rfl
  | writing =>
    rw [show keyFile = some [] from h]
    exact keyOfText_nil
  | _ => cases hp

theorem Fits.of_no_key {keyFile keyFile' : Option (List Char)} {p : SealPhase J}
    (h : Fits codec keyFile p) (hp : p.creating = false) (hkey : keyFile.bind keyOfText = none) :
    Fits codec keyFile' p := by
  cases p with
  | reading | rejected => trivial
  | making | opening | writing => cases hp
  | chmodding => exact nomatch hkey.symm.trans h
  | resolved =>
    obtain ⟨_, _, -, hsome⟩ := h
    exact nomatch hkey.symm.trans hsome

/-- **One stretch of a call.**  It leaves the file alone, or it is creating the key; it begins
to create the key where it finds no file; and the file fits where it gets to. -/
theorem sealResume_fits {keyFile keyFile' : Option (List Char)} {p p' : SealPhase J}
    {a : SealAnswer} (h : Fits codec keyFile p)
    (hstep : sealResume codec keyFile p a = some (keyFile', p')) :
    Fits codec keyFile' p' ∧ (keyFile' = keyFile ∨ p.creating = true) ∧
      (p'.creating = true → p.creating = true ∨
        keyFile = none ∧ (∃ value, p = .reading value) ∧ ∃ key iv, a = .done key iv) := by
  cases p with
  | reading value =>
    cases a with
    | failed =>
      cases hstep
      exact ⟨trivial, .inl rfl, nofun⟩
    | done fresh iv =>
      cases keyFile with
      | none =>
        cases hstep
        exact ⟨rfl, .inl rfl, fun _ ↦ .inr ⟨rfl, ⟨_, rfl⟩, _, _, rfl⟩⟩
      | some raw =>
        simp only [sealResume] at hstep
        cases hkey : keyOfText raw with
        | none =>
          rw [hkey] at hstep
          cases hstep
          exact ⟨trivial, .inl rfl, nofun⟩
        | some key =>
          rw [hkey] at hstep
          cases hstep
          exact ⟨⟨key, iv, rfl, hkey⟩, .inl rfl, nofun⟩
  | making value key =>
    cases a with
    | done =>
      cases hstep
      exact ⟨h, .inl rfl, fun _ ↦ .inl rfl⟩
    | failed =>
      cases hstep
      exact ⟨trivial, .inl rfl, nofun⟩
  | opening value key =>
    cases a with
    | done =>
      cases hstep
      exact ⟨rfl, .inr rfl, fun _ ↦ .inl rfl⟩
    | failed =>
      cases hstep
      exact ⟨trivial, .inl rfl, nofun⟩
  | writing value key =>
    cases a with
    | done =>
      cases hstep
      exact ⟨keyOfText_keyText key, .inr rfl, nofun⟩
    | failed =>
      cases hstep
      exact ⟨trivial, .inl rfl, nofun⟩
  | chmodding value key =>
    cases a with
    | done _ iv | failed iv =>
      cases hstep
      exact ⟨⟨key, iv, rfl, h⟩, .inl rfl, nofun⟩
  | resolved | rejected => cases a <;> cases hstep

/-- **The invariant**: the key file fits every call, and at most one call creates the key. -/
structure KeyKept (codec : SealingCodec J) (W : World (Option (List Char)) (SealPhase J)) :
    Prop where
  fits : ∀ (i : Nat) p, W.tasks[i]? = some p → Fits codec W.shared p
  one : ∀ (i j : Nat) p q, W.tasks[i]? = some p → W.tasks[j]? = some q → p.creating = true →
    q.creating = true → i = j

theorem KeyKept.step {W W' : World (Option (List Char)) (SealPhase J)} {e : Event J SealAnswer}
    (h : KeyKept codec W) (hok : oneCreator W e) (hstep : (sealing codec).step W e = some W') :
    KeyKept codec W' := by
  cases e with
  | call value =>
    cases Prog.step_call hstep
    constructor
    · intro i p hp
      rcases World.task_append hp with hp | ⟨-, rfl⟩
      · exact h.fits i p hp
      · trivial
    intro i j p q hp hq hcp hcq
    rcases World.task_append hp with hp | ⟨-, rfl⟩
    · rcases World.task_append hq with hq | ⟨-, rfl⟩
      · exact h.one i j p q hp hq hcp hcq
      · cases hcq
    · cases hcp
  | resume i a =>
    obtain ⟨p, keyFile', p', hi, hresume, rfl⟩ := Prog.step_resume hstep
    obtain ⟨hfits, hfile, hcreates⟩ := sealResume_fits (h.fits i p hi) hresume
    -- whoever creates the key after the step is the one that did before, or the first
    have hfirst : p'.creating = true → ∀ (j : Nat) q, W.tasks[j]? = some q → j ≠ i →
        q.creating = false := by
      intro hp' j q hj hne
      rcases hcreates hp' with hp | ⟨hnone, ⟨value, rfl⟩, key, iv, rfl⟩
      · by_contra hq
        exact hne (h.one j i q p hj hi ((Bool.not_eq_false _).mp hq) hp)
      · exact hok value hi hnone j q hj
    constructor
    · intro j q hj
      rcases World.task_set hj with ⟨-, rfl⟩ | ⟨hne, hj⟩
      · exact hfits
      rcases hfile with hsame | hp
      · exact hsame ▸ h.fits j q hj
      refine (h.fits j q hj).of_no_key ?_ ((h.fits i p hi).no_key hp)
      by_contra hq
      exact hne (h.one j i q p hj hi ((Bool.not_eq_false _).mp hq) hp)
    · intro j k q r hj hk hq hr
      rcases World.task_set hj with ⟨hji, hqp⟩ | ⟨hnej, hj'⟩
      · rcases World.task_set hk with ⟨hki, -⟩ | ⟨hnek, hk'⟩
        · exact hji.trans hki.symm
        · exact absurd hr (Bool.not_eq_true _ ▸ hfirst (hqp ▸ hq) k r hk' hnek)
      rcases World.task_set hk with ⟨-, hrp⟩ | ⟨-, hk'⟩
      · exact absurd hq (Bool.not_eq_true _ ▸ hfirst (hrp ▸ hr) j q hj' hnej)
      · exact h.one j k q r hj' hk' hq hr

theorem keyKept_of_reach {W : World (Option (List Char)) (SealPhase J)}
    (h : Reach (sealing codec).step oneCreator ⟨keyFile, []⟩ W) : KeyKept codec W :=
  h.invariant ⟨nofun, nofun⟩ fun _ _ _ hI hok hstep ↦ hI.step hok hstep

/-- **What was sealed can be unsealed**, and the key file stays once a call has returned, when
calls create the key one at a time. -/
theorem sealed_opens {keyFile : Option (List Char)} {W : World (Option (List Char)) (SealPhase J)}
    (h : Reach (sealing codec).step oneCreator ⟨keyFile, []⟩ W) :
    (∀ (i : Nat) value e, W.tasks[i]? = some (.resolved value e) →
      e.unseal codec W.shared = some value) ∧
    ∀ e W', oneCreator W e → (sealing codec).step W e = some W' →
      (∃ (i : Nat) (value : J) (e : SealedEnvelope), W.tasks[i]? = some (.resolved value e)) →
        W'.shared = W.shared := by
  have hkept := keyKept_of_reach h
  constructor
  · intro i value e hi
    obtain ⟨key, iv, rfl, hkey⟩ := hkept.fits i _ hi
    exact unseal_envelope_self hkey iv value
  rintro e W' - hstep ⟨i, value, e', hi⟩
  obtain ⟨key, iv, -, hkey⟩ := hkept.fits i _ hi
  cases e with
  | call value =>
    cases Prog.step_call hstep
    rfl
  | resume j a =>
    obtain ⟨p, keyFile', p', hj, hresume, rfl⟩ := Prog.step_resume hstep
    obtain ⟨-, hfile | hp, -⟩ := sealResume_fits (hkept.fits j p hj) hresume
    · exact hfile
    · exact nomatch hkey.symm.trans ((hkept.fits j p hj).no_key hp)

/-! ## Two creators -/

/-- A cipher that authenticates the key, over the JSON of truth values. -/
def sampleSealing : SealingCodec Bool where
  stringify value := if value then [0x74, 0x72, 0x75, 0x65] else [0x66, 0x61, 0x6c, 0x73, 0x65]
  parse bytes :=
    if bytes = [0x74, 0x72, 0x75, 0x65] then some true
    else if bytes = [0x66, 0x61, 0x6c, 0x73, 0x65] then some false else none
  parse_stringify := by decide
  encrypt key _ plaintext := (key.val, plaintext)
  decrypt key _ tag data := if tag = key.val then some data else none
  decrypt_encrypt _ _ _ := if_pos rfl

def sampleKey (byte : UInt8) : Key := ⟨List.replicate keyBytes byte, List.length_replicate⟩

def sealNext (i : Nat) (byte : UInt8) : Event Bool SealAnswer := .resume i (.done (sampleKey byte) [])

theorem oneCreator_alone {W : World (Option (List Char)) (SealPhase J)} {e : Event J SealAnswer}
    (h : W.tasks.length ≤ 1) : oneCreator W e := by
  have hzero {i : Nat} {p : SealPhase J} (hi : W.tasks[i]? = some p) : i = 0 := by
    have hlt := (List.getElem?_eq_some_iff.mp hi).1
    omega
  cases e with
  | call => trivial
  | resume i a =>
    cases a with
    | failed => trivial
    | done =>
      intro value hi _ j p hj
      obtain rfl := hzero hi
      obtain rfl := hzero hj
      cases hi.symm.trans hj
      rfl

/-- A call of `seal` that creates the key. -/
def firstSeal : List (Event Bool SealAnswer) :=
  [.call true, sealNext 0 7, sealNext 0 7, sealNext 0 7, sealNext 0 7, sealNext 0 7]

/-- A single call, on a home without a key. -/
theorem sealed_opens_first : ∃ W, Reach (sealing sampleSealing).step oneCreator ⟨none, []⟩ W ∧
      W.tasks[0]? = some (.resolved true (envelope sampleSealing (sampleKey 7) [] true)) ∧
      (envelope sampleSealing (sampleKey 7) [] true).unseal sampleSealing W.shared = some true := by
  have hrun : Reach (sealing sampleSealing).step oneCreator ⟨none, []⟩ _ :=
    .of_after firstSeal rfl fun n e he ↦ oneCreator_alone <| match n with
      | 0 => Nat.zero_le 1
      | 1 | 2 | 3 | 4 | 5 => Nat.le_refl 1
      | _ + 6 => nomatch he
  exact ⟨_, hrun, rfl, (sealed_opens hrun).1 0 true _ rfl⟩

/-- Two calls find no key file: each writes a key, and the first envelope does not open. -/
theorem sealed_lost : ∃ W, Reach (sealing sampleSealing).step anyStep ⟨none, []⟩ W ∧
      (∀ p ∈ W.tasks, p.sealed = true) ∧
      ∃ (i : Nat) (value : Bool) (e : SealedEnvelope),
        W.tasks[i]? = some (.resolved value e) ∧ e.unseal sampleSealing W.shared ≠ some value := by
  have hkey : (some (keyText (sampleKey 2))).bind keyOfText = some (sampleKey 2) :=
    keyOfText_keyText (sampleKey 2)
  have hlost : (envelope sampleSealing (sampleKey 1) [] true).unseal sampleSealing
      (some (keyText (sampleKey 2))) = none := by
    rw [unseal_envelope hkey]
    decide
  refine ⟨_, .of_exec [.call true, .call false, sealNext 0 1, sealNext 1 2, sealNext 0 1,
    sealNext 1 2, sealNext 0 1, sealNext 0 1, sealNext 0 1, sealNext 1 2, sealNext 1 2,
    sealNext 1 2] rfl, by decide, 0, true, _, rfl, fun hopen ↦ ?_⟩
  exact nomatch hlost.symm.trans hopen

end OpenAlice.Core
