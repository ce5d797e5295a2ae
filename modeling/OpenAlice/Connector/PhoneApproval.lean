import OpenAlice.Connector.FreshApproval
import OpenAlice.Connector.TelegramUta

/-!
# What an approval from the phone acts on

A push or a reject is put into the queue only from the confirm page of its account, with the hash
that the page was made from, and once for each review that a message shows: as long as the page
that follows a confirmation is shown (`confirmed_of_reach`).  If it is not, the session still says
that the confirm page is there.
-/

namespace OpenAlice.Connector

open OpenAlice.Run OpenAlice.Trading

/-! ## Resolutions -/

def UtaSession.IsLoading (session : UtaSession) : Prop :=
  ∃ reason, session.view = some (.loading reason)

/-- The page of a session takes no control but `refresh`. -/
def UtaSession.Locked (session : UtaSession) : Prop := session.review = none ∨ session.IsLoading

/-- What a page says of the session that comes with it: a confirm page is that of the account that
the view selects. -/
def Shows (page : Option Page) (session : UtaSession) : Prop :=
  ∀ kind index, session.view = some (.confirm kind index) →
    ∃ review account, session.review = some review ∧ review.accounts[index]? = some account ∧
      page = some (.confirm account kind)

inductive Resolves (session : Option UtaSession) (control : UtaControl) : UtaResolution → Prop
  | forbidden : Resolves session control .forbidden
  | ignored : Resolves session control .ignored
  | expired : Resolves session control .expired
  | show {form : Page} {s s' : UtaSession} (hs : session = some s) (hlocked : ¬ s.Locked)
      (hshows : Shows (some form) s') : Resolves session control (.show form s')
  | refresh {form : Page} {s' : UtaSession} (hloading : s'.IsLoading) :
      Resolves session control (.enqueue .review none none form s')
  | confirm {form : Page} {s s' : UtaSession} {review : UtaReview} {account : AccountReview}
      {kind : ConfirmKind} {index : Nat} (hcontrol : control = .confirm) (hs : session = some s)
      (hlocked : ¬ s.Locked) (hreview : s.review = some review)
      (hview : s.view = some (.confirm kind index))
      (haccount : review.accounts[index]? = some account)
      (hhash : (truthy account.pendingHash).isSome = true) (hloading : s'.IsLoading) :
      Resolves session control (.enqueue kind.action (some account.id) account.pendingHash form s')

variable {session : UtaSession}

theorem shows_of_view {page : Option Page}
    (h : ∀ kind index, session.view ≠ some (.confirm kind index)) : Shows page session :=
  fun kind index hview ↦ absurd hview (h kind index)

theorem UtaSession.IsLoading.shows (h : session.IsLoading)
    (page : Option Page) : Shows page session := by
  obtain ⟨reason, hview⟩ := h
  refine shows_of_view fun kind index hconfirm ↦ ?_
  rw [hview] at hconfirm
  cases hconfirm

theorem transitionAccount_resolves (hlocked : ¬ session.Locked)
    {review : UtaReview} (hreview : session.review = some review) {index : Nat}
    {account : AccountReview} (haccount : review.accounts[index]? = some account)
    (hselected : selectedAccountIndex session = some index) (control : UtaControl) :
    Resolves (some session) control (transitionAccount session review index account control) := by
  have hdetail : ∀ page : Option Page, Shows page { session with view := some (.detail index) } :=
    fun page ↦ shows_of_view fun kind i h ↦ by cases h
  have hconfirm : ∀ kind, Shows (some (.confirm account kind))
      { session with view := some (.confirm kind index) } := by
    intro kind kind' i hview
    cases hview
    exact ⟨review, account, hreview, haccount, rfl⟩
  cases control with
  | push =>
    simp only [transitionAccount]
    split_ifs
    · exact .show rfl hlocked (hdetail _)
    · exact .show rfl hlocked (hconfirm .push)
  | reject =>
    simp only [transitionAccount]
    split_ifs
    · exact .show rfl hlocked (hdetail _)
    · exact .show rfl hlocked (hconfirm .reject)
  | cancel => exact .show rfl hlocked (hdetail _)
  | confirm =>
    simp only [transitionAccount]
    split
    · rename_i kind i hview
      rw [selectedAccountIndex, hview] at hselected
      cases hselected
      split_ifs with hactionable
      · exact .expired
      rw [Bool.or_eq_true, not_or, Option.isNone_iff_eq_none, ← Option.not_isSome_iff_eq_none,
        not_not] at hactionable
      exact .confirm rfl rfl hlocked hreview hview haccount hactionable.2 ⟨_, rfl⟩
    · exact .expired
  | refresh => exact .ignored
  | account i => exact .ignored
  | back => exact .ignored

theorem transitionReview_resolves (hlocked : ¬ session.Locked)
    {review : UtaReview} (hreview : session.review = some review) (control : UtaControl) :
    Resolves (some session) control (transitionReview session review control) := by
  unfold transitionReview
  split
  · split
    · exact .expired
    · exact .show rfl hlocked (shows_of_view fun kind i h ↦ by cases h)
  · exact .show rfl hlocked (shows_of_view fun kind i h ↦ by cases h)
  · split
    · exact .expired
    rename_i index hselected
    split
    · exact .expired
    · rename_i account haccount
      exact transitionAccount_resolves hlocked hreview haccount hselected _

theorem transition_resolves (session : Option UtaSession) (control : UtaControl) (isOwner : Bool) :
    Resolves session control (transitionTelegramUta session control isOwner) := by
  unfold transitionTelegramUta
  split_ifs with howner hrefresh
  · exact .forbidden
  · exact .refresh ⟨_, rfl⟩
  · split
    · exact .expired
    rename_i s
    split
    · exact .expired
    rename_i review hreview
    split
    · exact .ignored
    rename_i hview
    have hlocked : ¬ s.Locked := by
      rintro (hnone | ⟨reason, hloading⟩)
      · rw [hreview] at hnone
        cases hnone
      · exact hview reason hloading
    split_ifs
    · exact .expired
    · exact transitionReview_resolves hlocked hreview control

/-! ## The queue -/

def Enqueued.IsApproval (e : Enqueued) : Prop := e.action ≠ .review

/-- **What is approved is what was shown**: every push and reject was put into the queue from the
confirm page of its account, with its hash, and no two of them from one review that a message
showed. -/
structure Confirmed (history : List Enqueued) : Prop where
  shown : ∀ e ∈ history, e.IsApproval → ∃ account kind hash,
    e.page = some (.confirm account kind) ∧ e.action = kind.action ∧ e.utaId = some account.id ∧
      account.pendingHash = some hash ∧ e.pendingHash = some hash
  once : history.Pairwise fun e e' ↦
    e.IsApproval → e'.IsApproval → e.message = e'.message → e.review ≠ e'.review

def PageFollows (_ : Telegram) : TelegramEvent → Prop
  | .control _ .confirm _ calls => calls.accepted = true → calls.shown = true
  | _ => True

/-- A message whose review has not been approved, or whose page takes no controls. -/
structure MessageKept (T : Telegram) (message : Nat) : Prop where
  shows : ∀ session, T.sessions message = some session → Shows (T.pages message) session
  bounded : ∀ e ∈ T.history, e.message = message → e.review ≤ T.reviews message
  locked : ∀ session, T.sessions message = some session →
    (∃ e ∈ T.history, e.IsApproval ∧ e.message = message ∧ e.review = T.reviews message) →
      session.Locked

structure Kept (T : Telegram) : Prop where
  confirmed : Confirmed T.history
  message : ∀ m, MessageKept T m

theorem kept_initial : Kept .initial where
  confirmed := ⟨fun e he ↦ absurd he List.not_mem_nil, .nil⟩
  message m :=
    { shows := fun session h ↦ by cases h
      bounded := fun e he ↦ absurd he List.not_mem_nil
      locked := fun session h ↦ by cases h }

theorem MessageKept.other {T T' : Telegram} {m : Nat} (h : MessageKept T m)
    (hsessions : T'.sessions m = T.sessions m) (hpages : T'.pages m = T.pages m)
    (hreviews : T'.reviews m = T.reviews m)
    (hhistory : ∀ e ∈ T'.history, e.message = m → e ∈ T.history) : MessageKept T' m where
  shows session hs := by
    rw [hpages]
    exact h.shows session (hsessions ▸ hs)
  bounded e he hm := by
    rw [hreviews]
    exact h.bounded e (hhistory e he hm) hm
  locked session hs := by
    rintro ⟨e, he, happroval, hm, hr⟩
    exact h.locked session (hsessions ▸ hs) ⟨e, hhistory e he hm, happroval, hm, hr.trans hreviews⟩

/-- The number of the next request, the pending requests, and the number of the next message do
not matter. -/
theorem Kept.of_eq {T T' : Telegram} (h : Kept T) (hsessions : T'.sessions = T.sessions)
    (hpages : T'.pages = T.pages) (hreviews : T'.reviews = T.reviews)
    (hhistory : T'.history = T.history) : Kept T' where
  confirmed := hhistory ▸ h.confirmed
  message m := (h.message m).other (by rw [hsessions]) (by rw [hpages]) (by rw [hreviews])
    fun e he _ ↦ hhistory ▸ he

variable {T : Telegram}

theorem Kept.shows (h : Kept T) {message : Nat} {page : Page} (hshows : Shows (some page) session)
    (hlocked : (∃ e ∈ T.history, e.IsApproval ∧ e.message = message ∧
      e.review = T.reviews message) → session.Locked) : Kept (T.shows message page session) where
  confirmed := h.confirmed
  message m := by
    by_cases hm : m = message
    · subst hm
      refine ⟨fun s hs ↦ ?_, (h.message m).bounded, fun s hs hspent ↦ ?_⟩
      · have hsession : s = session := by
          simpa [Telegram.shows] using hs.symm
        rw [hsession, show (T.shows m page session).pages m = some page by simp [Telegram.shows]]
        exact hshows
      have hsession : s = session := by
        simpa [Telegram.shows] using hs.symm
      rw [hsession]
      exact hlocked hspent
    · exact (h.message m).other (Function.update_of_ne hm _ _) (Function.update_of_ne hm _ _) rfl
        fun e he _ ↦ he

theorem Kept.enqueue_review (h : Kept T) (message : Nat) :
    Kept (T.enqueue message .review none none) where
  confirmed := by
    refine ⟨?_, ?_⟩
    · intro e he happroval
      rcases List.mem_append.mp he with he | he
      · exact h.confirmed.shown e he happroval
      · cases List.mem_singleton.mp he
        exact absurd rfl happroval
    · refine List.pairwise_append.mpr ⟨h.confirmed.once, List.pairwise_singleton _ _, ?_⟩
      intro e he e' he' _ happroval
      cases List.mem_singleton.mp he'
      exact absurd rfl happroval
  message m := by
    refine ⟨(h.message m).shows, ?_, ?_⟩
    · intro e he hm
      rcases List.mem_append.mp he with he | he
      · exact (h.message m).bounded e he hm
      · cases List.mem_singleton.mp he
        cases hm
        exact Nat.le_refl _
    · rintro session hs ⟨e, he, happroval, hm, hr⟩
      rcases List.mem_append.mp he with he | he
      · exact (h.message m).locked session hs ⟨e, he, happroval, hm, hr⟩
      · cases List.mem_singleton.mp he
        exact absurd rfl happroval

theorem Kept.confirm (h : Kept T) {message : Nat} {s s' : UtaSession}
    {review : UtaReview} {account : AccountReview} {kind : ConfirmKind} {index : Nat} (page : Page)
    (hs : T.sessions message = some s) (hlocked : ¬ s.Locked) (hreview : s.review = some review)
    (hview : s.view = some (.confirm kind index))
    (haccount : review.accounts[index]? = some account)
    (hhash : (truthy account.pendingHash).isSome = true) (hloading : s'.IsLoading) :
    Kept ((T.enqueue message kind.action (some account.id) account.pendingHash).shows message page
      s') := by
  have hpage : T.pages message = some (.confirm account kind) := by
    obtain ⟨review', account', hreview', haccount', hpage⟩ :=
      (h.message message).shows s hs kind index hview
    cases hreview.symm.trans hreview'
    cases haccount.symm.trans haccount'
    exact hpage
  obtain ⟨hash, hpending⟩ : ∃ hash, account.pendingHash = some hash := by
    cases hp : account.pendingHash with
    | some hash => exact ⟨hash, rfl⟩
    | none =>
      rw [hp] at hhash
      cases hhash
  refine ⟨⟨?_, ?_⟩, fun m ↦ ?_⟩
  · intro e he happroval
    rcases List.mem_append.mp he with he | he
    · exact h.confirmed.shown e he happroval
    · cases List.mem_singleton.mp he
      exact ⟨account, kind, hash, hpage, rfl, rfl, hpending, hpending⟩
  · refine List.pairwise_append.mpr ⟨h.confirmed.once, List.pairwise_singleton _ _, ?_⟩
    intro e he e' he' happroval _ hm hr
    cases List.mem_singleton.mp he'
    -- an earlier approval would have locked the page
    exact hlocked ((h.message message).locked s hs ⟨e, he, happroval, hm, hr⟩)
  · by_cases hm : m = message
    · subst hm
      have hsession : ∀ session, ((T.enqueue m kind.action (some account.id)
          account.pendingHash).shows m page s').sessions m = some session → session = s' := by
        intro session hsome
        simpa [Telegram.shows] using hsome.symm
      refine ⟨fun session hsome ↦ ?_, ?_, fun session hsome _ ↦ ?_⟩
      · rw [hsession session hsome]
        exact hloading.shows _
      · intro e he hm
        rcases List.mem_append.mp he with he | he
        · exact (h.message m).bounded e he hm
        · cases List.mem_singleton.mp he
          exact Nat.le_refl _
      · rw [hsession session hsome]
        exact .inr hloading
    · refine (h.message m).other (Function.update_of_ne hm _ _) (Function.update_of_ne hm _ _)
        rfl ?_
      intro e he hem
      rcases List.mem_append.mp he with he | he
      · exact he
      · cases List.mem_singleton.mp he
        exact absurd hem.symm hm

theorem Kept.present (h : Kept T) (message : Nat)
    (hview : session.view = some .list) (page : Page) :
    Kept { T.shows message page session with
      reviews := Function.update T.reviews message (T.reviews message + 1) } where
  confirmed := h.confirmed
  message m := by
    by_cases hm : m = message
    · subst hm
      refine ⟨fun s hs ↦ ?_, fun e he hem ↦ ?_, ?_⟩
      · have hsession : s = session := by
          simpa [Telegram.shows] using hs.symm
        rw [hsession]
        refine shows_of_view fun kind i hconfirm ↦ ?_
        rw [hview] at hconfirm
        cases hconfirm
      · change e.review ≤ Function.update T.reviews m (T.reviews m + 1) m
        rw [Function.update_self]
        exact Nat.le_succ_of_le ((h.message m).bounded e he hem)
      · rintro s hs ⟨e, he, -, hem, hr⟩
        have hle := (h.message m).bounded e he hem
        change e.review = Function.update T.reviews m (T.reviews m + 1) m at hr
        rw [Function.update_self] at hr
        omega
    · exact (h.message m).other (Function.update_of_ne hm _ _) (Function.update_of_ne hm _ _)
        (Function.update_of_ne hm _ _) fun e he _ ↦ he

theorem Kept.newPage (h : Kept T) {message : Nat} (hnone : T.sessions message = none)
    (page : Page) : Kept { T with pages := Function.update T.pages message (some page) } where
  confirmed := h.confirmed
  message m := by
    by_cases hm : m = message
    · subst hm
      refine ⟨fun s hs ↦ ?_, (h.message m).bounded, (h.message m).locked⟩
      change T.sessions m = some s at hs
      rw [hnone] at hs
      cases hs
    · exact (h.message m).other rfl (Function.update_of_ne hm _ _) rfl fun e he _ ↦ he

theorem Kept.resolve (h : Kept T) {message : Nat} {control : UtaControl}
    {calls : Calls} {resolution : UtaResolution}
    (hok : control = .confirm → calls.accepted = true → calls.shown = true)
    (hr : Resolves (T.sessions message) control resolution) :
    Kept (T.resolve message calls resolution) := by
  cases hr with
  | forbidden => exact h
  | ignored => exact h
  | expired => exact h
  | @«show» form s s' hs hlocked hshows =>
    simp only [Telegram.resolve]
    split_ifs
    · exact h.shows hshows fun hspent ↦ absurd ((h.message message).locked s hs hspent) hlocked
    · exact h
  | @refresh form s' hloading =>
    simp only [Telegram.resolve]
    split_ifs
    · exact h
    · exact h.enqueue_review message
    · have hloading' : UtaSession.IsLoading { s' with requestId := some T.nextRequest } := hloading
      exact ((h.enqueue_review message).shows (hloading'.shows _) fun _ ↦ .inr hloading').of_eq
        rfl rfl rfl rfl
  | @confirm form s s' review account kind index hcontrol hs hlocked hreview hview haccount hhash
      hloading =>
      simp only [Telegram.resolve]
      split_ifs with hrefused hhidden
      · exact h
      · rw [Bool.not_eq_true', Bool.not_eq_false] at hrefused
        rw [hok hcontrol hrefused] at hhidden
        cases hhidden
      · have hloading' : UtaSession.IsLoading { s' with requestId := some T.nextRequest } :=
          hloading
        exact (h.confirm form hs hlocked hreview hview haccount hhash hloading').of_eq
          rfl rfl rfl rfl

theorem Kept.step {T T' : Telegram} {e : TelegramEvent} (h : Kept T) (hok : PageFollows T e)
    (hst : T.step e = some T') : Kept T' := by
  cases e with
  | command message calls =>
    simp only [Telegram.step] at hst
    split_ifs at hst with hold
    cases hst
    rw [Bool.not_eq_true, Option.isSome_eq_false_iff, Option.isNone_iff_eq_none] at hold
    have hpage := h.newPage hold (.loading askingText)
    unfold Telegram.command
    split_ifs
    · exact h
    · exact hpage
    · have hloading : UtaSession.IsLoading
          { accountIds := [], requestId := some T.nextRequest,
            view := some (.loading askingText) } := ⟨_, rfl⟩
      exact ((hpage.enqueue_review message).shows (hloading.shows _) fun _ ↦ .inr hloading).of_eq
        rfl rfl rfl rfl
  | control message control isOwner calls =>
    simp only [Telegram.step] at hst
    split_ifs at hst with hanswered <;> cases hst
    · exact h
    refine h.resolve ?_ (transition_resolves (T.sessions message) control isOwner)
    rintro rfl
    exact hok
  | present requestId review result shown =>
    cases hst
    unfold Telegram.presentUta
    split
    · exact h
    rename_i message hpending
    have hrest : Kept { T with pending := Function.update T.pending requestId none } :=
      h.of_eq rfl rfl rfl rfl
    split_ifs
    · exact hrest
    · exact hrest.present message rfl (.list review result)
  | fail requestId =>
    cases hst
    exact h.of_eq rfl rfl rfl rfl

/-- **Approvals are confirmed** in every run in which the page that follows a confirmation is
shown. -/
theorem confirmed_of_reach (h : Reach Telegram.step PageFollows .initial T) : Confirmed T.history :=
  (h.invariant kept_initial fun _ _ _ hkept hok hst ↦ hkept.step hok hst).confirmed

/-! ## The theorem -/

def ownWords (text : String) : UtaOperation := { action := "placeOrder", summary := text }

def pushRequest (requestId : String) : UtaRequest where
  requestId := requestId
  connectorId := "telegram"
  createdAt := some 0
  action := .push
  utaId := some "paper"
  pendingHash := some "0a1b2c3d"

/-- An account with a commit that waits for approval, and a batch of one or more requests, each
of whose calls takes the same time. -/
def steadyOracle (requests : List UtaRequest) (duration : Nat) :
    Oracle Query (Reply String) TradingMode where
  start := 0
  duration _ := duration
  reply
    | _, .isEnabled => .ok true
    | _, .drainUtaActions => .ok requests
    | _, .listUTAs => .ok []
    | _, .get _ => .ok (some ⟨"Paper"⟩)
    | _, .status _ => .ok ⟨some "buy", some "0a1b2c3d", ["BUY AAPL"]⟩
    | _, .push _ => .ok ⟨"0a1b2c3d", 1, 0⟩
    | _, .reject _ => .ok "0a1b2c3d"
    | _, .presentUta _ => .ok ()
    | _, .failUta _ => .ok ()
  seen _ := .pro

/-- The account of `steadyOracle`, as a review shows it. -/
def paperReview : UtaReview where
  generatedAt := 0
  accounts := [⟨"paper", "Paper", some "buy", some "0a1b2c3d", 1, 0, [ownWords "BUY AAPL"]⟩]

/-- The owner asks for a review, selects the account, and approves. -/
def approvalEvents : List TelegramEvent :=
  [.command 0 ⟨true, true, true⟩, .present 0 paperReview none true,
    .control 0 (.account 0) true ⟨true, true, true⟩, .control 0 .push true ⟨true, true, true⟩,
    .control 0 .confirm true ⟨true, true, true⟩]

end OpenAlice.Connector
