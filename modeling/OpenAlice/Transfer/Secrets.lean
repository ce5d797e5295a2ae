import OpenAlice.Transfer.Home

/-!
# The credentials of a home

`readProjectTransferCredentialBundle` and `summarizeProjectTransferCredentials` of
`packages/cli/src/project-transfer-secrets.ts`, with the vault of `ai-credential-copy.ts`.

The five files are read side by side there and one after the other here; where several of them
fail, the error is that of the first in this order.
-/

namespace OpenAlice.Transfer

open OpenAlice.Data OpenAlice.Core

/-- `ProjectTransferCredentialBundle`.  The vault is the whole object, with its
`credentials`. -/
structure CredentialBundle where
  ai : List (String × Json)
  aiCredentials : List (String × Json)
  brokerAccounts : List Json
  connectors : List (String × Json)
  providerKeys : List (String × Json)

structure CountAndNames where
  count : Nat
  names : List String
deriving DecidableEq

/-- `ProjectTransferCredentialSummary` -/
structure CredentialSummary where
  /-- With the vendors. -/
  ai : CountAndNames
  broker : CountAndNames
  connector : CountAndNames
  providerKeys : CountAndNames
deriving DecidableEq

def transferSecretError (message : String) : TransferError := ⟨"ETRANSFERSECRET", message⟩

variable (codec : Codec)

/-! ## Reading -/

/-- `data/config/` and the name of a file. -/
def configPath (file : String) : Path := ["data", "config", file]

/-- `AI_PROVIDER_FILE_REL` -/
def aiProviderFile : Path := configPath "ai-provider-manager.json"

/-- `readOptionalJson`, with `none` for `undefined`. -/
def readOptionalJson (source : Source) (path : Path) : Except TransferError (Option Json) :=
  let error := transferSecretError
    ("Could not read credential configuration at " ++ source.absolute path ++ ".")
  match source.readFile path with
  | .error _ => .error error
  | .ok none => .ok none
  | .ok (some bytes) =>
    match codec.parse (codec.decode bytes) with
    | .error _ => .error error
    | .ok value => .ok (some value)

def sealedEnvelope (value : Json) : Option SealedEnvelope :=
  let fields := value.recordValue
  match Json.get fields "$sealed", Json.get fields "alg", Json.get fields "iv",
      Json.get fields "tag", Json.get fields "data" with
  | some (.number one), some (.string alg), some (.string iv), some (.string tag),
      some (.string data) =>
      if one = "1" ∧ alg = sealingAlg then
        some ⟨alg, iv.toList, tag.toList, data.toList⟩
      else none
  | _, _, _, _, _ => none

/-- `readSourceKey`, with `none` for `null`. -/
def readSourceKey (source : Source) : Except TransferError (Option Key) :=
  match source.readFile ["sealing.key"] with
  | .error message => .error ⟨"", message⟩
  | .ok none => .ok none
  | .ok (some bytes) =>
    match keyOfText (codec.decode bytes).toList with
    | some key => .ok (some key)
    | none => .error (transferSecretError "The source sealing key is malformed.")

def readOptionalSecretJson (source : Source) (path : Path) :
    Except TransferError (Option Json) := do
  match ← readOptionalJson codec source path with
  | none => .ok none
  | some value =>
    match sealedEnvelope value with
    | none => .ok (some value)
    | some envelope =>
      match ← readSourceKey codec source with
      | none => .error (transferSecretError ("Credential file " ++ path.text ++
          " is sealed but the source sealing key is missing."))
      | some key =>
        let plaintext := codec.decrypt key (decode64 envelope.iv) (decode64 envelope.tag)
          (decode64 envelope.data)
        match plaintext.map fun bytes ↦ codec.parse (codec.decode bytes) with
        | some (.ok opened) => .ok (some opened)
        | _ => .error (transferSecretError
            ("Credential file " ++ path.text ++ " could not be unsealed."))

/-! ## The vault -/

def isPresent (text : String) : Bool := !(Scheduling.trim text.toList).isEmpty

/-- The record of a credential, when it has a vendor.  An assignment to `__proto__` makes no
property. -/
def vaultEntry (entry : String × Json) : Option (String × Json) :=
  match entry.2 with
  | .object fields =>
    match (Json.get fields "vendor").bind Json.asString with
    | some vendor =>
      if entry.1 ≠ "" ∧ entry.1 ≠ "__proto__" ∧ isPresent vendor then some entry else none
    | none => none
  | _ => none

def parseAiProviderVault (value : Json) : List (String × Json) × List (String × Json) :=
  let root := value.recordValue
  let credentials := (Json.record root "credentials").filterMap vaultEntry
  (setKey root "credentials" (.object credentials), credentials)

def readAiProviderVault (source : Source) :
    Except TransferError (List (String × Json) × List (String × Json)) :=
  let error := fun message ↦ TransferError.mk "EAIVAULT"
    ("Could not read AI credentials at " ++ source.absolute aiProviderFile ++ ": " ++ message)
  match source.readFile aiProviderFile with
  | .error message => .error (error message)
  | .ok none => .ok ([("credentials", .object [])], [])
  | .ok (some bytes) =>
    match codec.parse (codec.decode bytes) with
    | .error message => .error (error message)
    | .ok value => .ok (parseAiProviderVault value)

/-! ## The bundle and its summary -/

def stringMap (fields : List (String × Json)) : List (String × Json) :=
  fields.filter fun field ↦ (Json.asString field.2).isSome

/-- The properties of a value that may be `undefined`. -/
def optionalRecord (value : Option Json) : List (String × Json) :=
  (value.map Json.recordValue).getD []

def readProjectTransferCredentialBundle (source : Source) :
    Except TransferError CredentialBundle := do
  let ai ← readAiProviderVault codec source
  let brokerValue ← readOptionalSecretJson codec source (configPath "accounts.json")
  let connectorValue ← readOptionalSecretJson codec source (configPath "connectors.json")
  let globalProviderKeys ← readOptionalJson codec source ["provider-keys.json"]
  let marketData ← readOptionalJson codec source (configPath "market-data.json")
  let ownKeys := Json.record (optionalRecord marketData) "providerKeys"
  .ok {
    ai := ai.1
    aiCredentials := ai.2
    brokerAccounts := match brokerValue with | some (.array items) => items | _ => []
    connectors := optionalRecord connectorValue
    providerKeys := stringMap
      (ownKeys.foldl (fun keys key ↦ setKey keys key.1 key.2) (optionalRecord globalProviderKeys)) }

/-- The bundle as a value of `JSON`. -/
def CredentialBundle.json (bundle : CredentialBundle) : Json :=
  .object [("ai", .object bundle.ai), ("brokerAccounts", .array bundle.brokerAccounts),
    ("connectors", .object bundle.connectors), ("providerKeys", .object bundle.providerKeys)]

def utf16 (text : String) : List Nat :=
  text.toList.flatMap fun c ↦
    if c.toNat < 0x10000 then [c.toNat]
    else [0xD800 + (c.toNat - 0x10000) / 0x400, 0xDC00 + (c.toNat - 0x10000) % 0x400]

theorem utf16_append (left right : String) : utf16 (left ++ right) = utf16 left ++ utf16 right := by
  rw [utf16, String.toList_append, List.flatMap_append, ← utf16, ← utf16]

def unitsLe : List Nat → List Nat → Bool
  | [], _ => true
  | _ :: _, [] => false
  | a :: left, b :: right => a < b || (a == b && unitsLe left right)

/-- `sort` of texts. -/
def sortTexts (texts : List String) : List String :=
  texts.mergeSort fun left right ↦ unitsLe (utf16 left) (utf16 right)

def presentTexts (values : List (Option Json)) : List String :=
  (values.filterMap fun value ↦
    (value.bind Json.asString).filter fun text ↦ isPresent text).eraseDups

/-- `a ?? b`, where a missing value and `null` are passed over. -/
def orElse (left right : Option Json) : Option Json :=
  match left with
  | none | some .null => right
  | some value => some value

def summarizeProjectTransferCredentials (bundle : CredentialBundle) : CredentialSummary :=
  let vendors := bundle.aiCredentials.map fun entry ↦ Json.get entry.2.recordValue "vendor"
  let presets := bundle.brokerAccounts.map fun account ↦
    let record := account.recordValue
    orElse (orElse (Json.get record "presetId") (Json.get record "type")) (Json.get record "id")
  let adapters := (Json.record bundle.connectors "adapters").map Prod.fst
  let keys := bundle.providerKeys.map Prod.fst
  { ai := ⟨bundle.aiCredentials.length, sortTexts (presentTexts vendors)⟩
    broker := ⟨bundle.brokerAccounts.length, sortTexts (presentTexts presets)⟩
    connector := ⟨adapters.length, sortTexts adapters⟩
    providerKeys := ⟨keys.length, sortTexts keys⟩ }

def credentialSummary (source : Source) : Except TransferError CredentialSummary :=
  (readProjectTransferCredentialBundle codec source).map summarizeProjectTransferCredentials

end OpenAlice.Transfer
