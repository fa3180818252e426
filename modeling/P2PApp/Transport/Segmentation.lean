import P2PApp.Library.JsonReader
import P2PApp.Transport.NativeFraming

/-!
# How the bytes of a native connection are cut

Nothing on the connection tells where a message ends, so that what is emitted depends on the bytes
that arrive together. Delivery is equivalent to one message at each edge. That this is enough is the
round trip of the texts. That it is needed follows from the quotation marks: the messages that are
emitted need all that are on the connection, so that what is dropped has none, whereas a message has
one behind its first brace.
-/

namespace P2PApp.Transport.Framing

open JsonString Json Utf8

variable {N : Type} {numerals : Numerals N}

/-! ## Bytes of messages -/

namespace Message

theorem parse_text (message : Message numerals) :
    parse numerals message.text = some message.content :=
  parse_stringify message.exact

theorem decode_bytes (message : Message numerals) : decode message.bytes = message.text :=
  decode_encode (wellFormed_stringify numerals message.content message.exact)

theorem parsePayload_bytes (message : Message numerals) :
    parsePayload numerals message.bytes = some message.content := by
  rw [parsePayload, decode_bytes, parse_text]

/-- A message starts with a brace and a quotation mark. -/
theorem exists_text_cons (message : Message numerals) :
    ∃ rest, message.text = 0x7B :: JsonString.quotationMark :: rest := by
  obtain ⟨rest, hrest⟩ := exists_stringifyFields_cons numerals message.nonempty
  exact ⟨rest, by rw [text, content, Json.stringify, hrest]⟩

end Message

theorem eq_of_asciiUnit {byte other : Byte} (h : asciiUnit byte = asciiUnit other) :
    byte = other := by
  apply BitVec.eq_of_toNat_eq
  rw [← toNat_asciiUnit byte, h, toNat_asciiUnit]

namespace Message

theorem exists_bytes_cons (message : Message numerals) :
    ∃ rest, message.bytes = 0x7B :: 0x22 :: rest := by
  obtain ⟨text, htext⟩ := message.exists_text_cons
  have hdecode := message.decode_bytes.trans htext
  obtain ⟨first, tail, hbytes, -, hfirst⟩ := head_of_decode hdecode (by decide)
  obtain rfl := @eq_of_asciiUnit first 0x7B hfirst
  rw [hbytes] at hdecode
  have htail : decode tail = quotationMark :: text := by
    have hcut := @decode_append_cons 0x7B (by decide) [] tail
    rw [List.nil_append, hdecode] at hcut
    exact (List.cons.inj hcut).2.symm
  obtain ⟨second, rest, rfl, -, hsecond⟩ := head_of_decode htail (by decide)
  obtain rfl := @eq_of_asciiUnit second 0x22 hsecond
  exact ⟨rest, hbytes⟩

end Message

/-! ## Quotation marks on the connection -/

/-- The number of strings in some messages. -/
def stringCount (messages : List (Message numerals)) : ℕ :=
  (messages.map fun message ↦ strings message.content).sum

theorem marked_texts (messages : List (Message numerals)) :
    Marked (messages.map Message.text).flatten (2 * stringCount messages) := by
  induction messages with
  | nil => exact marked_nil
  | cons message rest ih =>
    have hcount : 2 * stringCount (message :: rest) =
        2 * strings message.content + 2 * stringCount rest := by
      rw [stringCount, List.map_cons, List.sum_cons, Nat.mul_add, stringCount]
    rw [hcount]
    exact (valueText_stringify message.content message.exact).marked.append ih

theorem asciiBytes_stream (messages : List (Message numerals)) :
    asciiBytes (stream messages) = asciiPart (messages.map Message.text).flatten := by
  induction messages with
  | nil => rfl
  | cons message rest ih =>
    rw [stream, List.map_cons, List.flatten_cons, asciiBytes_append, List.map_cons,
      List.flatten_cons, asciiPart_append, ← asciiPart_decode, message.decode_bytes, ← ih, stream]

/-- A payload that is the text of a message begins in the middle of no string. -/
theorem start_of_parsePayload {payload : List Byte} {message : Message numerals}
    (h : parsePayload numerals payload = some message.content) :
    ∃ byte rest, payload = byte :: rest ∧ byte.toNat < 0x80 ∧ asciiUnit byte ∉ escapeLetters := by
  obtain ⟨unit, text, hdecode, hstart⟩ := head_of_parse h
  obtain ⟨byte, rest, hpayload, hbyte, hunit⟩ := head_of_decode hdecode hstart.lt
  exact ⟨byte, rest, hpayload, hbyte, hunit ▸ hstart.notMem⟩

/-- The messages that are emitted have all their quotation marks on the connection. -/
theorem stringCount_le_marks {payloads : List (List Byte)} {messages : List (Message numerals)}
    {escaped : Bool}
    (hemitted : NativeClient.emitted numerals payloads = messages.map Message.content)
    (hescapes : Escapes escaped (asciiBytes payloads.flatten)) :
    2 * stringCount messages ≤ marks escaped (asciiBytes payloads.flatten) := by
  induction payloads generalizing messages escaped with
  | nil =>
    obtain rfl := List.map_eq_nil_iff.1 hemitted.symm
    exact Nat.zero_le _
  | cons payload rest ih =>
    rw [List.flatten_cons, asciiBytes_append] at hescapes ⊢
    rw [marks_append]
    rw [NativeClient.emitted, List.filterMap_cons] at hemitted
    cases hparse : parsePayload numerals payload with
    | none =>
      rw [hparse] at hemitted
      exact (ih hemitted hescapes.drop).trans (Nat.le_add_left _ _)
    | some parsed =>
      rw [hparse] at hemitted
      obtain ⟨message, others, rfl, rfl, hothers⟩ := List.map_eq_cons_iff.1 hemitted.symm
      have hrest := ih hothers.symm hescapes.drop
      obtain ⟨byte, tail, rfl, hbyte, hletter⟩ := start_of_parsePayload hparse
      have hmessage := strings_le_of_parse hparse
      rw [asciiPart_decode] at hmessage
      cases escaped with
      | true =>
        rw [asciiBytes_cons, if_pos hbyte] at hescapes
        exact absurd hescapes.1 hletter
      | false =>
        rw [stringCount, List.map_cons, List.sum_cons, Nat.mul_add]
        exact Nat.add_le_add hmessage hrest

/-- All quotation marks on the connection are used up by the messages that are emitted. -/
structure Saturated (payloads : List (List Byte)) (messages : List (Message numerals)) : Prop where
  emitted : NativeClient.emitted numerals payloads = messages.map Message.content
  escapes : Escapes false (asciiBytes payloads.flatten)
  marks : marks false (asciiBytes payloads.flatten) = 2 * stringCount messages

namespace Saturated

variable {payload : List Byte} {rest : List (List Byte)} {messages : List (Message numerals)}

/-- A payload that is dropped has no quotation mark. -/
theorem marks_of_dropped (h : Saturated (payload :: rest) messages)
    (hdropped : parsePayload numerals payload = none) :
    Json.marks false (asciiBytes payload) = 0 := by
  have hemitted := h.emitted
  have hescapes := h.escapes
  have hmarks := h.marks
  rw [NativeClient.emitted, List.filterMap_cons, hdropped] at hemitted
  rw [List.flatten_cons, asciiBytes_append] at hescapes hmarks
  rw [marks_append] at hmarks
  have hrest := stringCount_le_marks hemitted hescapes.drop
  omega

theorem not_dropped (h : Saturated (payload :: rest) messages) {tail : List Byte}
    (hpayload : payload = 0x22 :: tail) : False := by
  cases hparse : parsePayload numerals payload with
  | none =>
    have hmarks := h.marks_of_dropped hparse
    rw [hpayload, asciiBytes_cons, if_pos (by decide), marks_append] at hmarks
    exact absurd (Nat.eq_zero_of_add_eq_zero_right hmarks) (by decide)
  | some parsed =>
    have hemitted := h.emitted
    rw [NativeClient.emitted, List.filterMap_cons, hparse] at hemitted
    obtain ⟨message, others, -, rfl, -⟩ := List.map_eq_cons_iff.1 hemitted.symm
    obtain ⟨byte, more, heq, -, hletter⟩ := start_of_parsePayload hparse
    obtain rfl := (List.cons.inj (hpayload.symm.trans heq)).1
    exact hletter (by decide)

theorem of_dropped (h : Saturated (payload :: rest) messages)
    (hdropped : parsePayload numerals payload = none)
    (hescaped : escapedAfter false (asciiBytes payload) = false) : Saturated rest messages := by
  have hemitted := h.emitted
  have hescapes := h.escapes
  have hmarks := h.marks
  rw [NativeClient.emitted, List.filterMap_cons, hdropped] at hemitted
  rw [List.flatten_cons, asciiBytes_append] at hescapes hmarks
  rw [marks_append, h.marks_of_dropped hdropped, Nat.zero_add, hescaped] at hmarks
  exact ⟨hemitted, hescaped ▸ hescapes.drop, hmarks⟩

/-- Without the brace that a message starts with, there is a quotation mark at the front. -/
theorem parsed_of_start (h : Saturated (payload :: rest) messages)
    (hne : ∀ other ∈ payload :: rest, other ≠ []) {more : List Byte}
    (hbytes : (payload :: rest).flatten = 0x7B :: 0x22 :: more) :
    parsePayload numerals payload ≠ none := by
  intro hdropped
  rw [List.flatten_cons] at hbytes
  rcases payload with _ | ⟨first, _ | ⟨second, tail⟩⟩
  · exact hne [] (List.mem_cons_self ..) rfl
  · obtain ⟨rfl, hquote⟩ := List.cons.inj hbytes
    rcases rest with _ | ⟨_ | ⟨second, tail⟩, others⟩
    · cases hquote
    · exact hne [] (by simp) rfl
    · obtain ⟨rfl, -⟩ := List.cons.inj hquote
      exact (h.of_dropped hdropped rfl).not_dropped rfl
  · obtain ⟨rfl, hquote⟩ := List.cons.inj hbytes
    obtain ⟨rfl, -⟩ := List.cons.inj hquote
    have hmarks := h.marks_of_dropped hdropped
    rw [asciiBytes_cons, if_pos (by decide), asciiBytes_cons, if_pos (by decide),
      ← List.append_assoc, marks_append] at hmarks
    exact absurd (Nat.eq_zero_of_add_eq_zero_right hmarks) (by decide)

end Saturated

theorem saturated_of_stream {payloads : List (List Byte)} {messages : List (Message numerals)}
    (hstream : payloads.flatten = stream messages)
    (hemitted : NativeClient.emitted numerals payloads = messages.map Message.content) :
    Saturated payloads messages where
  emitted := hemitted
  escapes := by
    rw [hstream, asciiBytes_stream]
    exact (marked_texts messages).escapes
  marks := by
    rw [hstream, asciiBytes_stream]
    exact (marked_texts messages).marks

/-! ## What is cut off with a message -/

namespace Message

/-- A message ends with a character below `0x80`, where bytes can be cut. -/
theorem decode_bytes_append (message : Message numerals) (rest : List Byte) :
    decode (message.bytes ++ rest) = message.text ++ decode rest := by
  obtain ⟨front, unit, htext, hunit⟩ := last_of_parse message.parse_text
  obtain ⟨others, byte, hbytes, hbyte⟩ := last_of_decode (message.decode_bytes.trans htext) hunit
  have hdecode := message.decode_bytes
  rw [hbytes] at hdecode ⊢
  rw [decode_concat_append hbyte, hdecode]

/-- A payload that goes on with the next message is dropped. -/
theorem parsePayload_append (message : Message numerals) (rest : List Byte) :
    parsePayload numerals (message.bytes ++ 0x7B :: rest) = none := by
  have hrest := @decode_append_cons 0x7B (by decide) [] rest
  rw [List.nil_append] at hrest
  rw [parsePayload, decode_bytes_append, hrest]
  exact parse_stringify_append message.exact (by decide) (by decide) _

end Message

theorem eq_nil_of_decode {bytes : List Byte} (h : decode bytes = []) : bytes = [] := by
  cases bytes with
  | nil => rfl
  | cons byte rest => exact absurd h (decodeFrom_cons_ne_nil none byte rest)

/-- A payload at the start of a message that is parsed into this message is its text. -/
theorem eq_bytes_of_parsePayload {payload rest : List Byte} {message : Message numerals}
    {messages : List (Message numerals)}
    (hparse : parsePayload numerals payload = some message.content)
    (hbytes : payload ++ rest = message.bytes ++ stream messages) : payload = message.bytes := by
  rcases List.append_eq_append_iff.1 hbytes with ⟨more, hmessage, -⟩ | ⟨more, rfl, hmore⟩
  · obtain ⟨front, unit, hdecode, hunit⟩ := last_of_parse hparse
    obtain ⟨others, byte, rfl, hbyte⟩ := last_of_decode hdecode hunit
    have htext := message.decode_bytes
    rw [hmessage, decode_concat_append hbyte] at htext
    have hnil := eq_nil_of_append_eq_stringify hparse message.exact htext
    rw [hmessage, eq_nil_of_decode hnil, List.append_nil]
  · cases more with
    | nil => rw [List.append_nil]
    | cons byte more =>
      exfalso
      match messages with
      | [] => cases hmore
      | next :: others =>
        obtain ⟨tail, htail⟩ := next.exists_bytes_cons
        rw [stream, List.map_cons, List.flatten_cons, htail, List.cons_append] at hmore
        obtain ⟨rfl, -⟩ := List.cons.inj hmore
        rw [message.parsePayload_append] at hparse
        cases hparse

/-- Where the messages are emitted as they were sent, no payload is dropped and none is cut. -/
theorem eq_map_bytes {payloads : List (List Byte)} {messages : List (Message numerals)}
    (hne : ∀ payload ∈ payloads, payload ≠ []) (hstream : payloads.flatten = stream messages)
    (hemitted : NativeClient.emitted numerals payloads = messages.map Message.content) :
    payloads = messages.map Message.bytes := by
  induction messages generalizing payloads with
  | nil =>
    cases payloads with
    | nil => rfl
    | cons payload rest =>
      exact absurd (List.append_eq_nil_iff.1 hstream).1 (hne payload (List.mem_cons_self ..))
  | cons message others ih =>
    have hsaturated := saturated_of_stream hstream hemitted
    obtain ⟨tail, htail⟩ := message.exists_bytes_cons
    rw [stream, List.map_cons, List.flatten_cons] at hstream
    cases payloads with
    | nil =>
      rw [htail] at hstream
      cases hstream
    | cons payload rest =>
      rw [NativeClient.emitted, List.filterMap_cons] at hemitted
      cases hparse : parsePayload numerals payload with
      | none =>
        rw [htail, List.cons_append, List.cons_append] at hstream
        exact absurd hparse (hsaturated.parsed_of_start hne hstream)
      | some parsed =>
        rw [hparse] at hemitted
        obtain ⟨hparsed, hrest⟩ := List.cons.inj hemitted
        rw [List.flatten_cons] at hstream
        obtain rfl := eq_bytes_of_parsePayload (hparsed ▸ hparse) hstream
        rw [List.map_cons, ih (fun other hother ↦ hne other (List.mem_cons_of_mem _ hother))
          (List.append_cancel_left hstream) hrest]

theorem emitted_map_bytes (messages : List (Message numerals)) :
    NativeClient.emitted numerals (messages.map Message.bytes) = messages.map Message.content := by
  induction messages with
  | nil => rfl
  | cons message rest ih =>
    rw [NativeClient.emitted, List.map_cons, List.filterMap_cons, message.parsePayload_bytes,
      List.map_cons]
    exact congrArg (message.content :: ·) ih

/-! ## Delivery -/

/-- The bytes of the messages arrive, in order, at edges with the given buffers. -/
def Arrives (edges : List (List (List Byte))) (messages : List (Message numerals)) : Prop :=
  edges.flatten.flatten = stream messages

/-- A client at this end emits the messages, each once and in order. -/
def DeliveredToClient (edges : List (List (List Byte))) (messages : List (Message numerals)) :
    Prop :=
  NativeClient.emitted numerals (payloads edges) = messages.map Message.content

/-- The server reports the connection, and emits the messages behind the HELLO. -/
def DeliveredToServer (edges : List (List (List Byte))) (hello : Message numerals)
    (messages : List (Message numerals)) : Prop :=
  NativeServer.emitted numerals (payloads edges) =
    .connection hello.content :: (messages.map Message.content).map .message

/-- What arrives at an edge is the text of one message, for all edges with something new. -/
def Framed (edges : List (List (List Byte))) (messages : List (Message numerals)) : Prop :=
  ((edges.map List.flatten).filter fun arrived ↦ !arrived.isEmpty) = messages.map Message.bytes

/-- The calls of `send` on a connection: before it is established, by the listeners of `connected`,
and afterwards. -/
structure Calls (numerals : Numerals N) where
  subscriptions : List JSString
  before : List (Message numerals)
  answers : List (Message numerals)
  after : List (Message numerals)

namespace Calls

/-- What a new client writes. -/
def written (calls : Calls numerals) (self : LocalPeer numerals) : List (Message numerals) :=
  (NativeClient.new self).written
    (calls.before.map .send ++
      .connected calls.subscriptions calls.answers :: calls.after.map .send)

/-- The messages in the order in which they are written. -/
def messages (calls : Calls numerals) : List (Message numerals) :=
  calls.answers ++ calls.before ++ calls.after

end Calls

/-- However the bytes are cut, the messages are delivered. -/
def Lossless (numerals : Numerals N) : Prop :=
  ∀ edges, (∀ sent : List (Message numerals), Arrives edges sent → DeliveredToClient edges sent) ∧
    ∀ (self : LocalPeer numerals) (calls : Calls numerals), Arrives edges (calls.written self) →
      DeliveredToServer edges (self.hello calls.subscriptions) calls.messages

theorem deliveredToClient_iff {edges : List (List (List Byte))} {sent : List (Message numerals)}
    (h : Arrives edges sent) : DeliveredToClient edges sent ↔ Framed edges sent := by
  constructor
  · intro hemitted
    rw [Framed, ← payloads_eq]
    exact eq_map_bytes (fun _ ↦ ne_nil_of_mem_payloads) ((flatten_payloads edges).trans h) hemitted
  · intro hframed
    rw [DeliveredToClient, payloads_eq, hframed]
    exact emitted_map_bytes sent

/-- The messages are delivered exactly if the bytes arrive message by message. -/
theorem delivered_iff_framed (numerals : Numerals N) (edges : List (List (List Byte))) :
    (∀ sent : List (Message numerals), Arrives edges sent →
      (DeliveredToClient edges sent ↔ Framed edges sent)) ∧
    ∀ (self : LocalPeer numerals) (calls : Calls numerals), Arrives edges (calls.written self) →
      (DeliveredToServer edges (self.hello calls.subscriptions) calls.messages ↔
        Framed edges (calls.written self)) := by
  refine ⟨fun sent ↦ deliveredToClient_iff, fun self calls harrives ↦ ?_⟩
  have hwritten : calls.written self = self.hello calls.subscriptions :: calls.messages :=
    NativeClient.written_new self calls.before calls.answers calls.after calls.subscriptions
  rw [hwritten] at harrives ⊢
  rw [← deliveredToClient_iff harrives]
  exact emitted_eq_connection_iff (isHello_hello self calls.subscriptions) _ _

/-! ## Two messages -/

theorem bytes_ne_nil (message : Message numerals) : message.bytes ≠ [] := by
  obtain ⟨rest, hrest⟩ := message.exists_bytes_cons
  rw [hrest]
  exact List.cons_ne_nil _ _

/-- The cut in which every edge has one message. -/
def oneByOne (messages : List (Message numerals)) : List (List (List Byte)) :=
  messages.map fun message ↦ [message.bytes]

theorem framed_oneByOne (messages : List (Message numerals)) :
    Framed (oneByOne messages) messages := by
  have hmap : (oneByOne messages).map List.flatten = messages.map Message.bytes := by
    simp [oneByOne]
  rw [Framed, hmap, List.filter_eq_self]
  intro bytes hbytes
  obtain ⟨message, -, rfl⟩ := List.mem_map.1 hbytes
  simp [bytes_ne_nil]

theorem arrives_oneByOne (messages : List (Message numerals)) :
    Arrives (oneByOne messages) messages := by
  rw [Arrives, ← flatten_payloads, payloads_eq, framed_oneByOne]
  rfl

/-- Numbers as their numerals. -/
def verbatim : Numerals {token : JSString // isNumeral token = true} where
  text number := number.1
  value token := if h : isNumeral token = true then ⟨token, h⟩ else ⟨ascii "0", by decide⟩
  exact _ := true
  numeral := fun {number} _ ↦ number.2
  value_text := fun {number} _ ↦ dif_pos number.2

def ping : Message verbatim where
  fields := [(ascii "type", string (ascii "PING"))]
  nonempty := List.cons_ne_nil _ _
  exact := ⟨by decide, trivial, trivial⟩

def dialer : LocalPeer verbatim where
  localPeerId := ascii "alice"
  port := ⟨ascii "8080", by decide⟩
  localPublicKey := none
  named := by decide
  exactPort := rfl

/-- A message that waits for the connection, and one behind it. -/
def pings : Calls verbatim where
  subscriptions := []
  before := [ping]
  answers := []
  after := [ping]

theorem delivered_iff_framed_verbatim :
    DeliveredToClient (oneByOne [ping, ping]) [ping, ping] ∧
      DeliveredToServer (oneByOne (pings.written dialer)) (dialer.hello []) [ping, ping] :=
  ⟨((delivered_iff_framed verbatim (oneByOne [ping, ping])).1 [ping, ping]
      (arrives_oneByOne _)).2 (framed_oneByOne _),
    ((delivered_iff_framed verbatim (oneByOne (pings.written dialer))).2 dialer pings
      (arrives_oneByOne _)).2 (framed_oneByOne _)⟩

/-- Two messages that arrive at one edge are both lost. -/
theorem not_lossless_verbatim : ¬Lossless verbatim := by
  intro hlossless
  have harrives : Arrives [[ping.bytes ++ ping.bytes]] [ping, ping] := by
    simp [Arrives, stream]
  have hdelivered := (hlossless [[ping.bytes ++ ping.bytes]]).1 [ping, ping] harrives
  have hpayloads : payloads [[ping.bytes ++ ping.bytes]] = [ping.bytes ++ ping.bytes] := by
    simp [payloads_eq, bytes_ne_nil]
  obtain ⟨rest, hrest⟩ := ping.exists_bytes_cons
  have hdropped := ping.parsePayload_append (0x22 :: rest)
  rw [← hrest] at hdropped
  rw [DeliveredToClient, hpayloads, NativeClient.emitted, List.filterMap_cons,
    hdropped] at hdelivered
  cases hdelivered

end P2PApp.Transport.Framing
