import LinkedMarkup.Protocol.Web
import Mathlib.Algebra.Order.Ring.Nat

namespace LinkedMarkup
namespace Web

/-- A further request may pass over the outcome of this one. -/
def Attempt.Passing : Attempt → Prop
  | .noConnection _ | .timedOut => True
  | .broken _ => False
  | .replied reply => 500 ≤ reply.status ∧ reply.status < 600

def Reply.Succeeds (reply : Reply) : Prop := 200 ≤ reply.status ∧ reply.status < 300

namespace Client

/-- What a body amounts to. -/
inductive Carries (client : Client) (key : String) (mediaType : Option String) :
    Body → Except ReferenceError Download → Prop
  | cut (detail : String) : Carries client key mediaType (.cut detail) (.error (.transport key detail))
  | stalled : Carries client key mediaType .stalled (.error (.timeout key client.timeout))
  | large {bytes : ByteArray} (large : client.maxSize < bytes.size) :
      Carries client key mediaType (.whole bytes) (.error (client.tooLarge key bytes.size))
  | garbled {bytes : ByteArray} (small : bytes.size ≤ client.maxSize)
      (garbled : ∀ text : String, text.toUTF8 ≠ bytes) :
      Carries client key mediaType (.whole bytes) (.error (.decode key "the reply is not UTF-8"))
  | text (text : String) (small : text.toUTF8.size ≤ client.maxSize) :
      Carries client key mediaType (.whole text.toUTF8) (.ok ⟨mediaType, text⟩)

/-- What comes of a request if no other follows it. -/
inductive Means (client : Client) (key : String) : Attempt → Except ReferenceError Download → Prop
  | noConnection (detail : String) : Means client key (.noConnection detail) (.error (.transport key detail))
  | timedOut : Means client key .timedOut (.error (.timeout key client.timeout))
  | broken (detail : String) : Means client key (.broken detail) (.error (.transport key detail))
  | refused {reply : Reply} (refused : ¬ reply.Succeeds) :
      Means client key (.replied reply) (.error (.http key reply.status))
  | announced {reply : Reply} {length : Nat} (succeeds : reply.Succeeds) (announced : reply.length = some length)
      (large : client.maxSize < length) : Means client key (.replied reply) (.error (client.tooLarge key length))
  | body {reply : Reply} {result : Except ReferenceError Download} (succeeds : reply.Succeeds)
      (small : ∀ length, reply.length = some length → length ≤ client.maxSize)
      (carries : client.Carries key reply.mediaType reply.body result) : Means client key (.replied reply) result

def Verdict.result : Verdict → Except ReferenceError Download
  | .retry error => .error error
  | .final result => result

variable {client : Client} {key : String} {attempt : Attempt} {result : Except ReferenceError Download}

/-! ### One request -/

theorem fromUTF8?_eq_some_iff {bytes : ByteArray} {text : String} :
    String.fromUTF8? bytes = some text ↔ text.toUTF8 = bytes := by
  rw [String.fromUTF8?, Option.dite_none_right_eq_some]
  constructor
  · rintro ⟨valid, read⟩
    cases read
    rfl
  · rintro rfl
    exact ⟨text.isValidUTF8, rfl⟩

theorem download_of_carries {reply : Reply}
    (small : ∀ length, reply.length = some length → length ≤ client.maxSize)
    (carries : client.Carries key reply.mediaType reply.body result) : client.download key reply = result := by
  have fits : ¬ reply.length.getD 0 > client.maxSize := by
    cases announced : reply.length with
    | none => exact Nat.not_lt_zero _
    | some length => exact Nat.not_lt.mpr (small length announced)
  rw [download, if_neg fits]
  generalize reply.body = body at carries
  cases carries with
  | cut detail => rfl
  | stalled => rfl
  | large large => exact if_pos large
  | garbled small garbled =>
    have unread : String.fromUTF8? _ = none :=
      Option.eq_none_iff_forall_ne_some.mpr fun text read => garbled text (fromUTF8?_eq_some_iff.mp read)
    exact (if_neg (Nat.not_lt.mpr small)).trans (by rw [unread])
  | text text small => exact (if_neg (Nat.not_lt.mpr small)).trans (by rw [fromUTF8?_eq_some_iff.mpr rfl])

theorem exists_carries (client : Client) (key : String) (mediaType : Option String) (body : Body) :
    ∃ result, client.Carries key mediaType body result := by
  cases body with
  | cut detail => exact ⟨_, .cut detail⟩
  | stalled => exact ⟨_, .stalled⟩
  | whole bytes =>
    rcases Nat.lt_or_ge client.maxSize bytes.size with large | small
    · exact ⟨_, .large large⟩
    · by_cases spelled : ∃ text : String, text.toUTF8 = bytes
      · obtain ⟨text, rfl⟩ := spelled
        exact ⟨_, .text text small⟩
      · exact ⟨_, .garbled small (not_exists.mp spelled)⟩

theorem judge_result_of_succeeds {reply : Reply} (succeeds : reply.Succeeds) :
    (client.judge key (.replied reply)).result = client.download key reply := by
  obtain ⟨least, most⟩ := succeeds
  simp only [judge, Bool.and_eq_true, decide_eq_true_eq]
  rw [if_neg (by omega), if_pos ⟨least, most⟩]
  rfl

theorem judge_result_of_refused {reply : Reply} (refused : ¬ reply.Succeeds) :
    (client.judge key (.replied reply)).result = .error (.http key reply.status) := by
  simp only [judge, Bool.and_eq_true, decide_eq_true_eq]
  split
  · rfl
  · exact congrArg Verdict.result (if_neg refused)

theorem judge_result_of_means (means : client.Means key attempt result) :
    (client.judge key attempt).result = result := by
  cases means with
  | noConnection detail => rfl
  | timedOut => rfl
  | broken detail => rfl
  | refused refused => exact judge_result_of_refused refused
  | announced succeeds announced large =>
    rw [judge_result_of_succeeds succeeds, download, announced]
    exact if_pos large
  | body succeeds small carries =>
    rw [judge_result_of_succeeds succeeds]
    exact download_of_carries small carries

theorem exists_means (client : Client) (key : String) (attempt : Attempt) :
    ∃ result, client.Means key attempt result := by
  cases attempt with
  | noConnection detail => exact ⟨_, .noConnection detail⟩
  | timedOut => exact ⟨_, .timedOut⟩
  | broken detail => exact ⟨_, .broken detail⟩
  | replied reply =>
    by_cases succeeds : reply.Succeeds
    · by_cases large : ∃ length, reply.length = some length ∧ client.maxSize < length
      · obtain ⟨length, announced, large⟩ := large
        exact ⟨_, .announced succeeds announced large⟩
      · obtain ⟨result, carries⟩ := exists_carries client key reply.mediaType reply.body
        refine ⟨result, .body succeeds (fun length announced => ?_) carries⟩
        exact Nat.not_lt.mp fun more => large ⟨length, announced, more⟩
    · exact ⟨_, .refused succeeds⟩

theorem means_iff : client.Means key attempt result ↔ (client.judge key attempt).result = result := by
  constructor
  · exact judge_result_of_means
  · rintro rfl
    obtain ⟨result, means⟩ := exists_means client key attempt
    rw [judge_result_of_means means]
    exact means

theorem means_of_judge {verdict : Verdict} (judged : client.judge key attempt = verdict) :
    client.Means key attempt verdict.result := means_iff.mpr (by rw [judged])

/-- A text comes from a whole body of at most the greatest size. -/
theorem Means.whole {download : Download} (means : client.Means key attempt (.ok download)) :
    ∃ reply, attempt = .replied reply ∧ reply.body = .whole download.text.toUTF8 ∧
      download.text.toUTF8.size ≤ client.maxSize := by
  cases means with
  | @body reply _ succeeds small carries =>
    generalize body : reply.body = whole at carries
    cases carries with
    | text text small => exact ⟨reply, rfl, body, small⟩

theorem judge_retry_iff : (∃ error, client.judge key attempt = .retry error) ↔ attempt.Passing := by
  cases attempt with
  | noConnection detail => exact ⟨fun _ => trivial, fun _ => ⟨_, rfl⟩⟩
  | timedOut => exact ⟨fun _ => trivial, fun _ => ⟨_, rfl⟩⟩
  | broken detail => exact ⟨nofun, False.elim⟩
  | replied reply =>
    simp only [judge, Bool.and_eq_true, decide_eq_true_eq, Attempt.Passing]
    split
    · next passing => exact ⟨fun _ => passing, fun _ => ⟨_, rfl⟩⟩
    · next final =>
      constructor
      · rintro ⟨error, retry⟩
        split at retry <;> cases retry
      · exact fun passing => absurd passing final

/-! ### A run of requests -/

variable {outcome : Nat → Attempt} {left first : Nat} {fetched : Fetched}

/-- What up to `left` requests have come to, the first one with the number `first`. -/
structure Tried (client : Client) (key : String) (outcome : Nat → Attempt) (left first : Nat) (fetched : Fetched) :
    Prop where
  begun : first < fetched.requests
  within : fetched.requests ≤ first + left
  passed : ∀ number, first ≤ number → number + 1 < fetched.requests → (outcome number).Passing
  ended : fetched.requests < first + left → ¬ (outcome (fetched.requests - 1)).Passing
  means : client.Means key (outcome (fetched.requests - 1)) fetched.result
  delays : fetched.delays = (List.range' first (fetched.requests - first)).flatMap client.pause

/-- No request follows, be it that none is left. -/
theorem Tried.last (some : 0 < left) (ends : 1 < left → ¬ (outcome first).Passing)
    (means : client.Means key (outcome first) result) :
    client.Tried key outcome left first ⟨result, first + 1, client.pause first ++ []⟩ where
  begun := Nat.lt_add_one first
  within := Nat.add_le_add_left some first
  passed number least most := absurd (Nat.lt_of_add_lt_add_right most) (Nat.not_lt.mpr least)
  ended more := ends (Nat.lt_of_add_lt_add_left more)
  means := means
  delays := by
    show client.pause first ++ [] = (List.range' first (first + 1 - first)).flatMap client.pause
    rw [Nat.add_sub_cancel_left]
    rfl

/-- A further request follows one that it passes over. -/
theorem Tried.further (passing : (outcome first).Passing)
    (tried : client.Tried key outcome left (first + 1) fetched) :
    client.Tried key outcome (left + 1) first { fetched with delays := client.pause first ++ fetched.delays } where
  begun := Nat.lt_of_succ_lt tried.begun
  within := by
    have within := tried.within
    show fetched.requests ≤ first + (left + 1)
    omega
  passed number least most := by
    rcases Nat.eq_or_lt_of_le least with rfl | later
    · exact passing
    · exact tried.passed number later most
  ended more := by
    apply tried.ended
    show fetched.requests < first + 1 + left
    rw [Nat.add_right_comm]
    exact more
  means := tried.means
  delays := by
    have begun := tried.begun
    show client.pause first ++ fetched.delays = (List.range' first (fetched.requests - first)).flatMap client.pause
    rw [tried.delays, show fetched.requests - first = fetched.requests - (first + 1) + 1 by omega]
    rfl

theorem attemptFrom_of_final {last : ReferenceError} (judged : client.judge key (outcome first) = .final result) :
    client.Tried key outcome (left + 1) first (client.attemptFrom key outcome last (left + 1) first) := by
  have stops : ¬ (outcome first).Passing := by
    intro passing
    obtain ⟨error, retry⟩ := judge_retry_iff.mpr passing
    rw [judged] at retry
    cases retry
  rw [attemptFrom, judged]
  exact .last left.succ_pos (fun _ => stops) (means_of_judge judged)

theorem attemptFrom_tried (client : Client) (key : String) (outcome : Nat → Attempt) (last : ReferenceError)
    (left first : Nat) :
    client.Tried key outcome (left + 1) first (client.attemptFrom key outcome last (left + 1) first) := by
  induction left generalizing last first with
  | zero =>
    cases judged : client.judge key (outcome first) with
    | final result => exact attemptFrom_of_final judged
    | retry error =>
      rw [attemptFrom, judged]
      exact .last Nat.one_pos (fun more => absurd more (Nat.lt_irrefl 1)) (means_of_judge judged)
  | succ left ih =>
    cases judged : client.judge key (outcome first) with
    | final result => exact attemptFrom_of_final judged
    | retry error =>
      rw [attemptFrom, judged]
      exact .further (judge_retry_iff.mp ⟨error, judged⟩) (ih error (first + 1))

theorem fetch_tried (client : Client) (key : String) (outcome : Nat → Attempt) :
    client.Tried key outcome (max 1 client.attempts) 0 (client.fetch key outcome) := by
  obtain ⟨left, some⟩ := Nat.exists_eq_succ_of_ne_zero (show max 1 client.attempts ≠ 0 by omega)
  rw [fetch, some]
  exact attemptFrom_tried client key outcome _ left 0

/-- The outcomes say how many requests are sent. -/
theorem Tried.requests_eq {k : Nat} (tried : client.Tried key outcome left 0 fetched)
    (passing : ∀ earlier < k, (outcome earlier).Passing) (stops : k < left → ¬ (outcome k).Passing) :
    fetched.requests = min left (k + 1) := by
  have begun := tried.begun
  have within := tried.within
  apply Nat.le_antisymm
  · apply Nat.le_min.mpr
    refine ⟨by omega, Nat.le_of_not_lt fun more => ?_⟩
    exact stops (by omega) (tried.passed k k.zero_le more)
  · refine Nat.le_of_not_lt fun fewer => ?_
    exact tried.ended (by omega) (passing _ (by omega))

/-! ### The delays -/

/-- The factor of the delay is limited, and so is the delay. -/
theorem delay_eq (client : Client) (attempt : Nat) :
    client.delay attempt = min longest (client.baseDelay * min (2 ^ (attempt - 1)) (2 ^ 32 - 1)) := by
  show min longest (client.baseDelay * if attempt - 1 < 32 then 2 ^ (attempt - 1) else 2 ^ 32 - 1) = _
  congr 2
  split
  · next few =>
    have less : 2 ^ (attempt - 1) ≤ 2 ^ 31 := Nat.pow_le_pow_right Nat.two_pos (by omega)
    omega
  · next many =>
    have more : 2 ^ 32 ≤ 2 ^ (attempt - 1) := Nat.pow_le_pow_right Nat.two_pos (by omega)
    omega

theorem delay_le_longest (client : Client) (attempt : Nat) : client.delay attempt ≤ longest := by
  rw [delay_eq]
  exact Nat.min_le_left _ _

theorem delay_mono (client : Client) {earlier later : Nat} (before : earlier ≤ later) :
    client.delay earlier ≤ client.delay later := by
  have powers : 2 ^ (earlier - 1) ≤ 2 ^ (later - 1) := Nat.pow_le_pow_right Nat.two_pos (by omega)
  have products : client.baseDelay * min (2 ^ (earlier - 1)) (2 ^ 32 - 1) ≤
      client.baseDelay * min (2 ^ (later - 1)) (2 ^ 32 - 1) := Nat.mul_le_mul_left _ (by omega)
  rw [delay_eq, delay_eq]
  omega

theorem flatMap_pause (client : Client) (earlier count : Nat) :
    (List.range' (earlier + 1) count).flatMap client.pause = (List.range' (earlier + 1) count).map client.delay := by
  induction count generalizing earlier with
  | zero => rfl
  | succ count ih =>
    rw [List.range'_succ, List.flatMap_cons, List.map_cons, ih]
    rfl

theorem Tried.delays_eq (tried : client.Tried key outcome left 0 fetched) :
    fetched.delays = (List.range' 1 (fetched.requests - 1)).map client.delay := by
  have begun := tried.begun
  have some : fetched.requests - 0 = fetched.requests - 1 + 1 := by omega
  rw [← flatMap_pause, tried.delays, some, List.range'_succ]
  rfl

theorem Tried.delays_ascending (tried : client.Tried key outcome left 0 fetched) :
    fetched.delays.Pairwise (· ≤ ·) := by
  rw [tried.delays_eq, List.pairwise_map]
  exact List.Pairwise.imp (fun before => client.delay_mono (Nat.le_of_lt before)) (List.pairwise_lt_range' 1)

end Client
end Web

namespace Handler
open Web

/-- What comes of a reference over the network, by the outcome of the last request. -/
inductive Comes (client : Client) (uri : Uri) (url : Url) (last : Attempt) : Except ReferenceError Resolved → Prop
  | failed {error : ReferenceError} (means : client.Means uri.key last (.error error)) :
      Comes client uri url last (.error error)
  | read {download : Client.Download} (means : client.Means uri.key last (.ok download)) :
      Comes client uri url last
        (decode uri.key download.text ((download.mediaType.bind ContentKind.ofMediaType?).getD (.ofPath url.path)))

theorem webContent_iff {client : Client} {network : Network} {uri : Uri} {url : Url}
    (parsed : Url.parse uri.protocol uri.path = .ok url) {result : Except ReferenceError Resolved} :
    webContent client network uri = result ↔
      Comes client uri url (network url.text ((client.fetch uri.key (network url.text)).requests - 1)) result := by
  have means := (Client.fetch_tried client uri.key (network url.text)).means
  have same {other : Except ReferenceError Client.Download} (means' : client.Means uri.key _ other) :
      (client.fetch uri.key (network url.text)).result = other :=
    (Client.means_iff.mp means).symm.trans (Client.means_iff.mp means')
  simp only [webContent, parsed]
  constructor
  · rintro rfl
    cases fetched : (client.fetch uri.key (network url.text)).result with
    | error error => exact .failed (fetched ▸ means)
    | ok download => exact .read (fetched ▸ means)
  · intro comes
    cases comes with
    | failed means' => rw [same means']
    | read means' => rw [same means']

end Handler

namespace Web.Client

/-- The outcomes decide what is sent and what comes of it: one request for each outcome in front that may be passed
over and one more, as far as there are attempts. The last outcome is the result. Only a body of at most the greatest
size is decoded. The delays do not decrease, and each is a duration, whatever the delay in front of the second
request is. -/
theorem fetch_of_outcomes (client : Client) (key : String) (outcome : Nat → Attempt) :
    let attempts := max 1 client.attempts
    let fetched := client.fetch key outcome
    let last := outcome (fetched.requests - 1)
    (∀ k, (∀ earlier < k, (outcome earlier).Passing) → ¬ (outcome k).Passing →
      fetched.requests = min attempts (k + 1)) ∧
    ((∀ number < attempts, (outcome number).Passing) → fetched.requests = attempts) ∧
    (∀ result, fetched.result = result ↔ client.Means key last result) ∧
    (∀ download, fetched.result = .ok download → ∃ reply, last = .replied reply ∧
      reply.body = .whole download.text.toUTF8 ∧ download.text.toUTF8.size ≤ client.maxSize) ∧
    (∀ (network : Network) (uri : Uri) (url : Url), Url.parse uri.protocol uri.path = .ok url → uri.key = key →
      network url.text = outcome → ∀ result,
        Handler.webContent client network uri = result ↔ Handler.Comes client uri url last result) ∧
    fetched.delays = (List.range' 1 (fetched.requests - 1)).map client.delay ∧
    fetched.delays.Pairwise (· ≤ ·) ∧
    (∀ earlier later, earlier ≤ later → client.delay earlier ≤ client.delay later) ∧
    (∀ attempt, client.delay attempt ≤ longest) ∧
    (∀ attempt, client.delay attempt = min longest (client.baseDelay * min (2 ^ (attempt - 1)) (2 ^ 32 - 1))) := by
  intro attempts fetched last
  have tried : client.Tried key outcome attempts 0 fetched := fetch_tried client key outcome
  have settled (result : Except ReferenceError Download) :
      fetched.result = result ↔ client.Means key last result := by
    rw [means_iff, means_iff.mp tried.means]
  refine ⟨?_, ?_, settled, ?_, ?_, tried.delays_eq, tried.delays_ascending, fun _ _ => client.delay_mono,
    client.delay_le_longest, client.delay_eq⟩
  · intro k passing stops
    exact tried.requests_eq passing fun _ => stops
  · intro passing
    have requests := tried.requests_eq (fun earlier before => passing earlier before) fun more =>
      absurd more (Nat.lt_irrefl attempts)
    rw [requests]
    exact Nat.min_eq_left attempts.le_succ
  · intro download read
    exact ((settled _).mp read).whole
  · rintro network uri url parsed rfl rfl result
    exact Handler.webContent_iff parsed

/-- A server that is out of order at first and then too slow. Two requests are too few for it. -/
theorem fetch_of_outcomes_slow :
    let outcome : Nat → Attempt := fun number => match number with
      | 0 => .replied { status := 503, body := .cut "" }
      | 1 => .timedOut
      | _ => .replied { status := 200, mediaType := some "text/plain", body := .whole "fine".toUTF8 }
    let patient : Client := {}
    let impatient : Client := { attempts := 2 }
    let uri : Uri := ⟨"http", "//host/note"⟩
    (patient.fetch uri.key outcome).requests = 3 ∧
      (patient.fetch uri.key outcome).delays = [500000000, 1000000000] ∧
      Handler.webContent patient (fun _ => outcome) uri = .ok (.text "fine") ∧
      (impatient.fetch uri.key outcome).requests = 2 ∧
      (impatient.fetch uri.key outcome).result = .error (.timeout "http://host/note" 30000) := by
  intro outcome patient impatient uri
  have passing : ∀ number < 2, (outcome number).Passing := by
    intro number few
    match number, few with
    | 0, _ => exact ⟨by decide, by decide⟩
    | 1, _ => exact trivial
  obtain ⟨counted, _, _, _, content, delays, _⟩ := fetch_of_outcomes patient uri.key outcome
  obtain ⟨_, exhausted, settled, _⟩ := fetch_of_outcomes impatient uri.key outcome
  have third : (patient.fetch uri.key outcome).requests = 3 :=
    counted 2 passing fun passing => absurd passing.1 (by decide)
  have second : (impatient.fetch uri.key outcome).requests = 2 := exhausted passing
  refine ⟨third, ?_, ?_, second, ?_⟩
  · rw [delays, third]
    decide +kernel
  · let url : Url := ⟨"http", "host", "/note", ""⟩
    have read : (Url.parse uri.protocol uri.path).toOption = some url := by decide +kernel
    have parsed : Url.parse uri.protocol uri.path = .ok url := by
      cases parsed : Url.parse uri.protocol uri.path with
      | error fault =>
        rw [parsed] at read
        cases read
      | ok other =>
        rw [parsed] at read
        exact congrArg _ (Option.some.inj read)
    refine (content _ uri _ parsed rfl rfl _).mpr ?_
    rw [third]
    have means : patient.Means uri.key (outcome 2) (.ok ⟨some "text/plain", "fine"⟩) :=
      .body ⟨by decide, by decide⟩ nofun (.text "fine" (by decide +kernel))
    have kind : ContentKind.ofMediaType? "text/plain" = some .text := by decide +kernel
    have comes : Handler.Comes patient uri url (outcome 2) _ := .read means
    rw [show Download.mediaType _ = some "text/plain" from rfl, Option.bind_some, kind] at comes
    exact comes
  · refine (settled _).mpr ?_
    rw [second]
    exact .timedOut

end Web.Client
end LinkedMarkup
