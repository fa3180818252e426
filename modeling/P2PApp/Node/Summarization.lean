import P2PApp.Library.KeyedLock
import P2PApp.Protocol.Message

/-!
# Summaries of topics

`generateAndBroadcastSummary` suspends while it reads the messages and while the AI service writes
the summary. In the meantime other calls begin, from a command, from the counter of new messages or
directly. The set `activeSummarizations` lets one call per topic through, and every way out of that
call passes the `finally` that takes its topic out again.

The broadcast is a step of its own as well, since the listeners that it calls may begin calls.
-/

namespace P2PApp.Summarization

/-- Where a call is. -/
inductive Progress
  | skipped
  | reading
  | requesting (messages : List P2PMessage)
  | broadcasting (messages : List P2PMessage) (summaryText : String)
  | returned
  deriving DecidableEq

structure Call where
  topic : String
  mode : String
  progress : Progress

/-- A call of `aiClient.summarizeMessages`. -/
structure Request where
  index : ℕ
  topic : String
  mode : String
  messages : List P2PMessage

/-- A summary that was handed to the gossip engine. -/
structure Broadcast where
  index : ℕ
  topic : String
  summaryText : String
  mode : String
  messageCount : ℕ

/-- What a node keeps for its summaries. The calls are numbered in the order in which they begin. -/
structure Summarizer where
  enableAutoSummary : Bool
  activeSummarizations : Finset String
  newMessagesCounter : String → ℕ
  calls : List Call
  requests : List Request
  broadcasts : List Broadcast

/-- The topic that a call has claimed. -/
def Call.claim (call : Call) : Option String :=
  match call.progress with
  | .skipped | .returned => none
  | _ => some call.topic

/-- The last `limit` chat messages among the records of the iterator. -/
def recentMessages (records : List P2PMessage) (limit : ℕ) : List P2PMessage :=
  let messages := records.filter fun message ↦ message.type = .chat
  messages.drop (messages.length - limit)

/-- What `trim` removes. -/
def isWhitespace (character : Char) : Bool :=
  character.toNat ∈ [0x9, 0xA, 0xB, 0xC, 0xD, 0x20, 0xA0, 0x1680, 0x2028, 0x2029, 0x202F, 0x205F,
    0x3000, 0xFEFF] ∨ 0x2000 ≤ character.toNat ∧ character.toNat ≤ 0x200A

/-- The mode of a summary command; neither command ends with a space, so that only the spaces in
front of it matter. -/
def commandMode (content : String) : Option String :=
  let trimmed := content.toList.dropWhile isWhitespace
  if "/keypoints".toList.isPrefixOf trimmed then some "keypoints"
  else if "/summary".toList.isPrefixOf trimmed then some "summary"
  else none

namespace Summarizer

def new (enableAutoSummary : Bool) : Summarizer := ⟨enableAutoSummary, ∅, fun _ ↦ 0, [], [], []⟩

/-- The beginning of a call, up to its first `await`. -/
def generateAndBroadcastSummary (node : Summarizer) (topic mode : String) : Summarizer :=
  if topic ∈ node.activeSummarizations then
    { node with calls := node.calls ++ [⟨topic, mode, .skipped⟩] }
  else
    { node with
      activeSummarizations := insert topic node.activeSummarizations
      calls := node.calls ++ [⟨topic, mode, .reading⟩] }

def setProgress (node : Summarizer) (call : ℕ) (progress : Progress) : Summarizer :=
  { node with calls := node.calls.modify call fun other ↦ { other with progress } }

/-- The `finally` of a call. -/
def finish (node : Summarizer) (call : ℕ) (topic : String) : Summarizer :=
  { node.setProgress call .returned with
    activeSummarizations := node.activeSummarizations.erase topic }

/-- The read has returned the records of the topic, or has failed. -/
def onRead (node : Summarizer) (index : ℕ) (call : Call) (outcome : Option (List P2PMessage)) :
    Summarizer :=
  match outcome.map fun records ↦ recentMessages records 25 with
  | none | some [] => node.finish index call.topic
  | some messages =>
    { node.setProgress index (.requesting messages) with
      requests := node.requests ++ [⟨index, call.topic, call.mode, messages⟩] }

/-- The AI service has answered with a text, if at all, or the request has failed. -/
def onSummarized (node : Summarizer) (index : ℕ) (call : Call) (messages : List P2PMessage)
    (outcome : Option (Option String)) : Summarizer :=
  match outcome.bind truthy with
  | none => node.finish index call.topic
  | some summaryText => node.setProgress index (.broadcasting messages summaryText)

/-- The summary was signed and handed to the engine, or one of these has thrown. -/
def onBroadcast (node : Summarizer) (index : ℕ) (call : Call) (messages : List P2PMessage)
    (summaryText : String) (succeeds : Bool) : Summarizer :=
  if succeeds then
    { node.finish index call.topic with
      broadcasts :=
        node.broadcasts ++ [⟨index, call.topic, summaryText, call.mode, messages.length⟩] }
  else node.finish index call.topic

/-- The rest of the listener of `message:new`, behind the save of the message. -/
def onSaved (node : Summarizer) (message : P2PMessage) : Summarizer :=
  if message.type = .chat ∧ node.enableAutoSummary then
    let count := node.newMessagesCounter message.topic + 1
    if 20 ≤ count then
      ({ node with
        newMessagesCounter :=
          Function.update node.newMessagesCounter message.topic 0 } :
        Summarizer).generateAndBroadcastSummary message.topic "summary"
    else
      { node with
        newMessagesCounter := Function.update node.newMessagesCounter message.topic count }
  else node

/-- What `publish` does about a command. -/
def publish (node : Summarizer) (topic content : String) : Summarizer :=
  match commandMode content with
  | some mode => node.generateAndBroadcastSummary topic mode
  | none => node

/-! ## Runs -/

inductive Event
  | call (topic mode : String)
  | publish (topic content : String)
  | saved (message : P2PMessage)
  | read (index : ℕ) (outcome : Option (List P2PMessage))
  | summarized (index : ℕ) (outcome : Option (Option String))
  | broadcast (index : ℕ) (succeeds : Bool)

/-- The call that goes on. -/
def Event.index : Event → Option ℕ
  | .read index _ | .summarized index _ | .broadcast index _ => some index
  | .call .. | .publish .. | .saved _ => none

/-- The call and where it is. -/
def progressOf (node : Summarizer) (index : ℕ) : Option (Call × Progress) :=
  node.calls[index]?.map fun call ↦ (call, call.progress)

/-- A call goes on only from where it is; other events change nothing. -/
def next (node : Summarizer) : Event → Summarizer
  | .call topic mode => node.generateAndBroadcastSummary topic mode
  | .publish topic content => node.publish topic content
  | .saved message => node.onSaved message
  | .read index outcome =>
    match node.progressOf index with
    | some (call, .reading) => node.onRead index call outcome
    | _ => node
  | .summarized index outcome =>
    match node.progressOf index with
    | some (call, .requesting messages) => node.onSummarized index call messages outcome
    | _ => node
  | .broadcast index succeeds =>
    match node.progressOf index with
    | some (call, .broadcasting messages summaryText) =>
      node.onBroadcast index call messages summaryText succeeds
    | _ => node

/-- The topics that the calls have claimed. -/
def claims (calls : List Call) (index : ℕ) : Option String := calls[index]?.bind Call.claim

theorem claims_append (calls : List Call) (call : Call) :
    claims (calls ++ [call]) = Function.update (claims calls) calls.length call.claim := by
  funext index
  unfold claims
  rcases lt_trichotomy index calls.length with hlt | rfl | hgt
  · rw [Function.update_of_ne hlt.ne, List.getElem?_append_left hlt]
  · rw [Function.update_self, List.getElem?_concat_length]
    rfl
  · have hbeyond : (calls ++ [call]).length ≤ index := by
      rw [List.length_append]
      exact hgt
    rw [Function.update_of_ne hgt.ne', List.getElem?_eq_none hbeyond,
      List.getElem?_eq_none hgt.le]

theorem claims_length (calls : List Call) : claims calls calls.length = none := by
  unfold claims
  rw [List.getElem?_eq_none le_rfl]
  rfl

theorem claims_of_getElem? {calls : List Call} {index : ℕ} {call : Call}
    (h : calls[index]? = some call) : claims calls index = call.claim := by
  rw [claims, h]
  rfl

/-- A call that is turned away claims nothing. -/
theorem claims_append_of_claim_eq_none (calls : List Call) {call : Call} (h : call.claim = none) :
    claims (calls ++ [call]) = claims calls := by
  rw [claims_append, h, ← claims_length calls, Function.update_eq_self]

theorem claims_modify {calls : List Call} {index : ℕ} {call : Call}
    (h : calls[index]? = some call) (progress : Progress) :
    claims (calls.modify index fun other ↦ { other with progress }) =
      Function.update (claims calls) index { call with progress : Call }.claim := by
  funext other
  unfold claims
  rw [List.getElem?_modify]
  by_cases heq : index = other
  · subst heq
    rw [Function.update_self, h]
    simp
  · rw [Function.update_of_ne (Ne.symm heq)]
    simp [heq]

theorem progressOf_eq_some {node : Summarizer} {index : ℕ} {call : Call} {progress : Progress}
    (h : node.progressOf index = some (call, progress)) :
    node.calls[index]? = some call ∧ call.progress = progress := by
  obtain ⟨found, hfound, heq⟩ := Option.map_eq_some_iff.1 h
  cases heq
  exact ⟨hfound, rfl⟩

/-- What a step does to the claims, the calls and the requests. -/
inductive Transition (node node' : Summarizer) : Option ℕ → Prop
  /-- It does nothing to them. -/
  | idle (index : Option ℕ)
      (hactive : node'.activeSummarizations = node.activeSummarizations)
      (hcalls : node'.calls = node.calls) (hrequests : node'.requests = node.requests) :
      Transition node node' index
  /-- A call finds its topic busy. -/
  | skip (topic mode : String)
      (hactive : node'.activeSummarizations = node.activeSummarizations)
      (hcalls : node'.calls = node.calls ++ [⟨topic, mode, .skipped⟩])
      (hrequests : node'.requests = node.requests) : Transition node node' none
  /-- A call claims its topic. -/
  | enter (topic mode : String) (hfree : topic ∉ node.activeSummarizations)
      (hactive : node'.activeSummarizations = insert topic node.activeSummarizations)
      (hcalls : node'.calls = node.calls ++ [⟨topic, mode, .reading⟩])
      (hrequests : node'.requests = node.requests) : Transition node node' none
  /-- A call goes on to its next `await`. -/
  | advance (index : ℕ) (call : Call) (progress : Progress)
      (hcall : node.calls[index]? = some call) (hclaim : call.claim = some call.topic)
      (hprogress : { call with progress : Call }.claim = some call.topic)
      (hactive : node'.activeSummarizations = node.activeSummarizations)
      (hcalls : node'.calls = node.calls.modify index fun other ↦ { other with progress })
      (hrequests : ∀ request ∈ node'.requests, request ∈ node.requests ∨ request.index = index) :
      Transition node node' (some index)
  /-- A call passes its `finally`. -/
  | finish (index : ℕ) (call : Call) (hcall : node.calls[index]? = some call)
      (hclaim : call.claim = some call.topic)
      (hactive : node'.activeSummarizations = node.activeSummarizations.erase call.topic)
      (hcalls : node'.calls =
        node.calls.modify index fun other ↦ { other with progress := .returned })
      (hrequests : node'.requests = node.requests) : Transition node node' (some index)

theorem transition_generateAndBroadcastSummary (node : Summarizer) (topic mode : String) :
    Transition node (node.generateAndBroadcastSummary topic mode) none := by
  unfold generateAndBroadcastSummary
  by_cases hbusy : topic ∈ node.activeSummarizations
  · rw [if_pos hbusy]
    exact .skip topic mode rfl rfl rfl
  · rw [if_neg hbusy]
    exact .enter topic mode hbusy rfl rfl rfl

theorem transition_publish (node : Summarizer) (topic content : String) :
    Transition node (node.publish topic content) none := by
  unfold publish
  cases commandMode content with
  | none => exact .idle none rfl rfl rfl
  | some mode => exact node.transition_generateAndBroadcastSummary topic mode

theorem transition_onSaved (node : Summarizer) (message : P2PMessage) :
    Transition node (node.onSaved message) none := by
  unfold onSaved
  by_cases hcounts : message.type = .chat ∧ node.enableAutoSummary
  · rw [if_pos hcounts]
    by_cases hfull : 20 ≤ node.newMessagesCounter message.topic + 1
    · rw [if_pos hfull]
      -- the counter is set to zero first, which the claims do not depend on
      cases transition_generateAndBroadcastSummary
        { node with
          newMessagesCounter := Function.update node.newMessagesCounter message.topic 0 }
        message.topic "summary" with
      | idle _ hactive hcalls hrequests => exact .idle none hactive hcalls hrequests
      | skip topic mode hactive hcalls hrequests => exact .skip topic mode hactive hcalls hrequests
      | enter topic mode hfree hactive hcalls hrequests =>
        exact .enter topic mode hfree hactive hcalls hrequests
    · rw [if_neg hfull]
      exact .idle none rfl rfl rfl
  · rw [if_neg hcounts]
    exact .idle none rfl rfl rfl

section Continue

variable {node : Summarizer} {index : ℕ} {call : Call} (hcall : node.calls[index]? = some call)
include hcall

theorem transition_finish (hclaim : call.claim = some call.topic) :
    Transition node (node.finish index call.topic) (some index) :=
  .finish index call hcall hclaim rfl rfl rfl

theorem transition_onRead (hprogress : call.progress = .reading)
    (outcome : Option (List P2PMessage)) :
    Transition node (node.onRead index call outcome) (some index) := by
  have hclaim : call.claim = some call.topic := by simp [Call.claim, hprogress]
  unfold onRead
  split
  · exact transition_finish hcall hclaim
  · exact transition_finish hcall hclaim
  · refine .advance index call _ hcall hclaim rfl rfl rfl fun request hrequest ↦ ?_
    rcases List.mem_append.1 hrequest with hbefore | hnew
    · exact .inl hbefore
    · exact .inr (congrArg Request.index (List.mem_singleton.1 hnew))

theorem transition_onSummarized {messages : List P2PMessage}
    (hprogress : call.progress = .requesting messages) (outcome : Option (Option String)) :
    Transition node (node.onSummarized index call messages outcome) (some index) := by
  have hclaim : call.claim = some call.topic := by simp [Call.claim, hprogress]
  unfold onSummarized
  split
  · exact transition_finish hcall hclaim
  · exact .advance index call _ hcall hclaim rfl rfl rfl fun request hrequest ↦ .inl hrequest

theorem transition_onBroadcast {messages : List P2PMessage} {summaryText : String}
    (hprogress : call.progress = .broadcasting messages summaryText) (succeeds : Bool) :
    Transition node (node.onBroadcast index call messages summaryText succeeds) (some index) := by
  have hclaim : call.claim = some call.topic := by simp [Call.claim, hprogress]
  cases succeeds with
  | false => exact transition_finish hcall hclaim
  | true => exact .finish index call hcall hclaim rfl rfl rfl

end Continue

/-- The step lemma: what an event can do. -/
theorem transition_next (node : Summarizer) (event : Event) :
    Transition node (node.next event) event.index := by
  cases event with
  | call topic mode => exact node.transition_generateAndBroadcastSummary topic mode
  | publish topic content => exact node.transition_publish topic content
  | saved message => exact node.transition_onSaved message
  | read index outcome =>
    rw [next]
    split
    · next hfound =>
      obtain ⟨hcall, hprogress⟩ := progressOf_eq_some hfound
      exact transition_onRead hcall hprogress outcome
    · exact .idle _ rfl rfl rfl
  | summarized index outcome =>
    rw [next]
    split
    · next hfound =>
      obtain ⟨hcall, hprogress⟩ := progressOf_eq_some hfound
      exact transition_onSummarized hcall hprogress outcome
    · exact .idle _ rfl rfl rfl
  | broadcast index succeeds =>
    rw [next]
    split
    · next hfound =>
      obtain ⟨hcall, hprogress⟩ := progressOf_eq_some hfound
      exact transition_onBroadcast hcall hprogress succeeds
    · exact .idle _ rfl rfl rfl

/-- What every state satisfies: the set is balanced by the calls, and the requests were made by
calls that got through. -/
structure Sound (node : Summarizer) : Prop where
  balanced : KeyedLock.Balanced node.activeSummarizations (claims node.calls)
  requested : ∀ request ∈ node.requests,
    ∃ call ∈ node.calls[request.index]?, call.progress ≠ .skipped

theorem sound_new (enableAutoSummary : Bool) : (new enableAutoSummary).Sound where
  balanced := KeyedLock.balanced_empty
  requested := fun request hrequest ↦ by cases hrequest

/-- A call that got through is never again one that did not, and its request stays its own. -/
theorem requested_append {calls : List Call} {call : Call} {index : ℕ}
    (h : ∃ found ∈ calls[index]?, found.progress ≠ .skipped) :
    ∃ found ∈ (calls ++ [call])[index]?, found.progress ≠ .skipped := by
  obtain ⟨found, hfound, hprogress⟩ := h
  have hlt : index < calls.length := (List.getElem?_eq_some_iff.1 hfound).1
  exact ⟨found, (List.getElem?_append_left hlt).trans hfound, hprogress⟩

theorem requested_modify {calls : List Call} {position index : ℕ} {progress : Progress}
    (hprogress : progress ≠ .skipped) (h : ∃ found ∈ calls[index]?, found.progress ≠ .skipped) :
    ∃ found ∈ (calls.modify position fun other ↦ { other with progress })[index]?,
      found.progress ≠ .skipped := by
  obtain ⟨found, hfound, hother⟩ := h
  rw [List.getElem?_modify, Option.mem_def.1 hfound]
  by_cases heq : position = index
  · exact ⟨{ found with progress }, by simp [heq], hprogress⟩
  · exact ⟨found, by simp [heq], hother⟩

theorem Sound.of_transition {node node' : Summarizer} {index : Option ℕ} (h : node.Sound)
    (hstep : Transition node node' index) : node'.Sound := by
  cases hstep with
  | idle _ hactive hcalls hrequests =>
    exact ⟨by rw [hactive, hcalls]; exact h.balanced, by rw [hrequests, hcalls]; exact h.requested⟩
  | skip topic mode hactive hcalls hrequests =>
    constructor
    · rw [hactive, hcalls, claims_append_of_claim_eq_none _ rfl]
      exact h.balanced
    · rw [hrequests, hcalls]
      exact fun request hrequest ↦ requested_append (h.requested request hrequest)
  | enter topic mode hfree hactive hcalls hrequests =>
    constructor
    · rw [hactive, hcalls, claims_append]
      exact h.balanced.acquire hfree (claims_length node.calls)
    · rw [hrequests, hcalls]
      exact fun request hrequest ↦ requested_append (h.requested request hrequest)
  | advance position call progress hcall hclaim hprogress hactive hcalls hrequests =>
    have hholds : claims node.calls position = some call.topic :=
      (claims_of_getElem? hcall).trans hclaim
    have hskipped : progress ≠ .skipped := by
      rintro rfl
      cases hprogress
    constructor
    · rw [hactive, hcalls, claims_modify hcall, hprogress, ← hholds, Function.update_eq_self]
      exact h.balanced
    · rw [hcalls]
      intro request hrequest
      apply requested_modify hskipped
      rcases hrequests request hrequest with hbefore | rfl
      · exact h.requested request hbefore
      · refine ⟨call, hcall, fun hprogress ↦ ?_⟩
        simp [Call.claim, hprogress] at hclaim
  | finish position call hcall hclaim hactive hcalls hrequests =>
    have hholds : claims node.calls position = some call.topic :=
      (claims_of_getElem? hcall).trans hclaim
    constructor
    · rw [hactive, hcalls, claims_modify hcall]
      exact h.balanced.release hholds
    · rw [hrequests, hcalls]
      exact fun request hrequest ↦
        requested_modify (by decide) (h.requested request hrequest)

/-- The run lemma. -/
theorem Sound.foldl {node : Summarizer} (h : node.Sound) (events : List Event) :
    (events.foldl next node).Sound :=
  List.foldlRecOn events next h fun node hnode event _ ↦
    hnode.of_transition (node.transition_next event)

/-- A call that was turned away takes no further step. -/
theorem Transition.getElem?_of_skipped {node node' : Summarizer} {index : Option ℕ}
    (h : Transition node node' index) {position : ℕ} {call : Call}
    (hcall : node.calls[position]? = some call) (hskipped : call.progress = .skipped) :
    node'.calls[position]? = some call := by
  have hbefore : position < node.calls.length := (List.getElem?_eq_some_iff.1 hcall).1
  have hother {other : ℕ} {found : Call} (hfound : node.calls[other]? = some found)
      (hclaim : found.claim = some found.topic) : other ≠ position := by
    rintro rfl
    cases hcall.symm.trans hfound
    simp [Call.claim, hskipped] at hclaim
  cases h with
  | idle _ hactive hcalls hrequests => rw [hcalls, hcall]
  | skip topic mode hactive hcalls hrequests =>
    rw [hcalls, List.getElem?_append_left hbefore, hcall]
  | enter topic mode hfree hactive hcalls hrequests =>
    rw [hcalls, List.getElem?_append_left hbefore, hcall]
  | advance other found progress hfound hclaim hprogress hactive hcalls hrequests =>
    rw [hcalls, List.getElem?_modify_ne _ _ (hother hfound hclaim), hcall]
  | finish other found hfound hclaim hactive hcalls hrequests =>
    rw [hcalls, List.getElem?_modify_ne _ _ (hother hfound hclaim), hcall]

theorem getElem?_foldl_of_skipped {node : Summarizer} {position : ℕ} {call : Call}
    (hcall : node.calls[position]? = some call) (hskipped : call.progress = .skipped)
    (events : List Event) : (events.foldl next node).calls[position]? = some call :=
  List.foldlRecOn (motive := fun node : Summarizer ↦ node.calls[position]? = some call)
    events next hcall fun node hnode event _ ↦
      (node.transition_next event).getElem?_of_skipped hnode hskipped

/-- A topic is released by the call that has claimed it. -/
theorem Transition.releases {node node' : Summarizer} {index : Option ℕ}
    (h : Transition node node' index) {topic : String} (hbefore : topic ∈ node.activeSummarizations)
    (hafter : topic ∉ node'.activeSummarizations) :
    ∃ position, index = some position ∧ claims node.calls position = some topic := by
  cases h with
  | idle _ hactive hcalls hrequests => exact absurd (hactive ▸ hbefore) hafter
  | skip other mode hactive hcalls hrequests => exact absurd (hactive ▸ hbefore) hafter
  | enter other mode hfree hactive hcalls hrequests =>
    exact absurd (hactive ▸ Finset.mem_insert_of_mem hbefore) hafter
  | advance position call progress hcall hclaim hprogress hactive hcalls hrequests =>
    exact absurd (hactive ▸ hbefore) hafter
  | finish position call hcall hclaim hactive hcalls hrequests =>
    refine ⟨position, rfl, ?_⟩
    have htopic : topic = call.topic := by
      by_contra hne
      exact hafter (hactive ▸ Finset.mem_erase_of_ne_of_mem hne hbefore)
    rw [claims_of_getElem? hcall, htopic]
    exact hclaim

theorem Sound.request_ne {node : Summarizer} (h : node.Sound) {position : ℕ} {call : Call}
    (hcall : node.calls[position]? = some call) (hskipped : call.progress = .skipped)
    {request : Request} (hrequest : request ∈ node.requests) : request.index ≠ position := by
  rintro rfl
  obtain ⟨found, hfound, hprogress⟩ := h.requested request hrequest
  cases hcall.symm.trans hfound
  exact hprogress hskipped

/-- Of five calls for one topic, one reads. -/
example : ((List.replicate 5 (.call "global" "summary")).foldl next (new true)).calls.map
    Call.progress = [.reading, .skipped, .skipped, .skipped, .skipped] := by
  decide

end Summarizer

end P2PApp.Summarization
