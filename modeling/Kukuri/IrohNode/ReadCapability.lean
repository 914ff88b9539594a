import Kukuri.Data.Trace
import Kukuri.IrohNode.PageRead

/-!
# Private reads

A read of a private replica carries a hash of the replica, its namespace and the query under the
secret of the namespace. The hash is idealised: nobody can make it without the secret, but whoever
has received it can send it again. Connections are private and authenticated, so that a request is
seen by the endpoint that it is sent to and by no other.

The hash names neither the reader nor the node that is asked. A party without the secret that is
asked by a reader can therefore ask another node with the same request, and is answered
(`exists_forwarded_read`). It is not answered if readers send private requests only to parties that
have the secret, or that do not send them on (`private_answer_needs_secret`).
-/

namespace Kukuri

open Result

namespace PageRead

/-- Hashes under a key are those of one key and message. -/
def DocCodec.Unforgeable (codec : DocCodec) : Prop :=
  ∀ secret message secret' message',
    codec.keyedHash secret message = codec.keyedHash secret' message' →
      secret = secret' ∧ message = message'

/-! ### The network -/

/-- The parties of a network: their local state if they are nodes, the secrets that they know, and
the requests that have been sent, with their source and destination. Endpoints that work together
are one party. -/
structure ReadNetwork (E : Type) where
  readers : E → DocReader
  knows : E → Set Bytes
  sent : List (E × E × Request)

inductive ReadOp (E : Type) where
  /-- A party comes to know a secret. -/
  | learn (party : E) (secret : Bytes)
  /-- The local state of a node changes. -/
  | update (party : E) (reader : DocReader)
  /-- A node sends a read to a party. -/
  | read (source peer : E) (replica : String) (secret : Bytes) (query : DocReadQuery)
  /-- A node answers a request of a party. -/
  | answer (server source : E) (request : Request)

section

variable {E : Type} [DecidableEq E] (codec : DocCodec) (honest : E → Prop)

/-- The proofs that a party can present: hashes under the secrets that it knows, proofs that it has
been sent, and texts that are no hashes. -/
def ReadNetwork.Presents (net : ReadNetwork E) (party : E) (proof : String) : Prop :=
  (∃ secret ∈ net.knows party, ∃ message, proof = codec.keyedHash secret message) ∨
    (∃ source request, (source, party, request) ∈ net.sent ∧
      request.capabilityProof = some proof) ∨
    ∀ secret message, proof ≠ codec.keyedHash secret message

/-- A node sends the requests that it makes, and any other party what it can present. -/
def ReadNetwork.Sends (net : ReadNetwork E) (source server : E) (request : Request) : Prop :=
  (honest source ∧ (source, server, request) ∈ net.sent) ∨
    (¬ honest source ∧ ∀ proof, request.capabilityProof = some proof →
      net.Presents codec source proof)

/-- The steps of a network, with the response that the source of a request receives. -/
inductive ReadStep :
    ReadNetwork E → ReadOp E → Option DocReadResponse → ReadNetwork E → Prop
  | learn (net : ReadNetwork E) (party : E) (secret : Bytes) :
    ReadStep net (.learn party secret) none
      { net with knows := Function.update net.knows party (insert secret (net.knows party)) }
  | update {net : ReadNetwork E} {party : E} {reader : DocReader}
      (hcodec : reader.toDocCodec = codec) :
    ReadStep net (.update party reader) none
      { net with readers := Function.update net.readers party reader }
  | read {net : ReadNetwork E} {source : E} (peer : E) {replica : String} {secret : Bytes}
      {query : DocReadQuery} {request : Request} (hhonest : honest source)
      (hknows : secret ∈ net.knows source)
      (hrequest : Request.new codec replica secret query = .ok request)
      (hsize : (codec.requestJson request).length ≤ maxRequestBytes) :
    ReadStep net (.read source peer replica secret query) none
      { net with sent := (source, peer, request) :: net.sent }
  | answer {net : ReadNetwork E} {server source : E} {request : Request} (hhonest : honest server)
      (hsends : net.Sends codec honest source server request) :
    ReadStep net (.answer server source request)
      (serve (net.readers server) request).toOption net

/-- Nothing has been sent, and all nodes use the same functions. -/
structure ReadNetwork.Fresh (net : ReadNetwork E) : Prop where
  sent : net.sent = []
  uses : ∀ party, (net.readers party).toDocCodec = codec

/-- A private read goes to a node, or to a party that knows the secret. -/
def ReadTrusted (event : Event (ReadNetwork E) (ReadOp E) (Option DocReadResponse)) : Prop :=
  ∀ source peer replica secret query, event.op = .read source peer replica secret query →
    privateReplica replica = true → honest peer ∨ secret ∈ event.before.knows peer

/-! ### Requests that have been sent -/

/-- The proof of a request that has been sent is made with a secret that its source and its
destination know, unless the destination is a node. -/
structure ReadNetwork.Guarded (net : ReadNetwork E) : Prop where
  uses : ∀ party, (net.readers party).toDocCodec = codec
  sent : ∀ source peer request, (source, peer, request) ∈ net.sent →
    ∀ proof, request.capabilityProof = some proof →
      ∃ secret message, proof = codec.keyedHash secret message ∧ secret ∈ net.knows source ∧
        (honest peer ∨ secret ∈ net.knows peer)

end

section

variable {E : Type} [DecidableEq E] {codec : DocCodec} {honest : E → Prop}
  {net net' : ReadNetwork E} {op : ReadOp E} {ret : Option DocReadResponse}

variable {request : Request}

theorem proof_of_new {replica : String} {secret : Bytes} {query : DocReadQuery}
    {proof : String} (h : Request.new codec replica secret query = .ok request)
    (hproof : request.capabilityProof = some proof) :
  privateReplica replica = true ∧ ∃ message, proof = codec.keyedHash secret message
  := by
  obtain ⟨-, -, h⟩ := bind_eq_ok.mp h
  cases h
  split at hproof
  case isTrue hprivate =>
    cases hproof
    exact ⟨hprivate, _, rfl⟩
  case isFalse => cases hproof

/-- The answer to a private request shows that its proof was made with the secret of the server. -/
theorem proof_of_serve {reader : DocReader} {response : DocReadResponse}
    (h : serve reader request = .ok response) (hprivate : privateReplica request.replica = true) :
  ∃ lookup secret message, reader.privateSecret = some lookup ∧
    lookup request.replica = some secret ∧
    request.capabilityProof = some (reader.keyedHash secret message)
  := by
  obtain ⟨-, -, h⟩ := bind_eq_ok.mp h
  obtain ⟨namespaceId, -, h⟩ := bind_eq_ok.mp h
  obtain ⟨response, hrespond, -⟩ := bind_eq_ok.mp h
  obtain ⟨_, hauthorize, -⟩ := bind_eq_ok.mp hrespond
  unfold authorize at hauthorize
  rw [if_pos hprivate] at hauthorize
  obtain ⟨lookup, hlookup, hauthorize⟩ := bind_eq_ok.mp hauthorize
  obtain ⟨secret, hsecret, hauthorize⟩ := bind_eq_ok.mp hauthorize
  obtain ⟨-, hauthorize⟩ := bailIf_bind_eq_ok.mp hauthorize
  have hproof := not_not.mp (bailIf_eq_ok.mp hauthorize)
  exact ⟨lookup, secret, _, context_eq_ok.mp hlookup, context_eq_ok.mp hsecret, hproof⟩

theorem sends_of_answer {server source : E} {response : DocReadResponse}
    (h : ReadStep codec honest net (.answer server source request) (some response) net') :
  net.Sends codec honest source server request ∧
    serve (net.readers server) request = .ok response
  := by
  generalize hgiven : some response = given at h
  cases h with
  | answer _ hsends =>
    refine ⟨hsends, ?_⟩
    generalize serve (net.readers server) request = current at hgiven
    cases current with
    | error failure =>
      cases hgiven
    | ok found =>
      cases hgiven
      rfl

theorem mem_update_insert {knows : E → Set Bytes} {party other : E} {secret known : Bytes}
    (h : known ∈ knows other) :
  known ∈ Function.update knows party (insert secret (knows party)) other
  := by
  by_cases hparty : other = party
  · subst hparty
    rw [Function.update_self]
    exact .inr h
  · rw [Function.update_of_ne hparty]
    exact h

theorem guarded_of_step (hguarded : net.Guarded codec honest)
    (hstep : ReadStep codec honest net op ret net')
    (htrusted : ReadTrusted honest ⟨net, op, ret, net'⟩) :
  net'.Guarded codec honest
  := by
  cases hstep with
  | learn party secret =>
    refine ⟨hguarded.uses, ?_⟩
    intro source peer request hsent proof hproof
    obtain ⟨known, message, rfl, hsource, hpeer⟩ :=
      hguarded.sent source peer request hsent proof hproof
    exact ⟨known, message, rfl, mem_update_insert hsource, hpeer.imp_right mem_update_insert⟩
  | @update party reader hcodec =>
    refine ⟨?_, hguarded.sent⟩
    intro other
    dsimp only
    by_cases hparty : other = party
    · subst hparty
      rw [Function.update_self]
      exact hcodec
    · rw [Function.update_of_ne hparty]
      exact hguarded.uses other
  | @read source peer replica secret query request hhonest hknows hrequest hsize =>
    refine ⟨hguarded.uses, ?_⟩
    intro source' peer' request' hsent proof hproof
    rcases List.mem_cons.mp hsent with heq | hsent
    · cases heq
      obtain ⟨hprivate, message, rfl⟩ := proof_of_new hrequest hproof
      exact ⟨secret, message, rfl, hknows, htrusted _ _ _ _ _ rfl hprivate⟩
    · exact hguarded.sent source' peer' request' hsent proof hproof
  | answer hhonest hsends => exact hguarded

omit [DecidableEq E] in
/-- A party that sends a proof made with a secret knows the secret. -/
theorem knows_of_sends (hunforgeable : codec.Unforgeable) (hguarded : net.Guarded codec honest)
    {server source : E} {secret message : Bytes}
    (hsends : net.Sends codec honest source server request)
    (hproof : request.capabilityProof = some (codec.keyedHash secret message)) :
  secret ∈ net.knows source
  := by
  rcases hsends with ⟨-, hsent⟩ | ⟨hdishonest, hpresents⟩
  · obtain ⟨known, message', heq, hsource, -⟩ :=
      hguarded.sent source server request hsent _ hproof
    rw [(hunforgeable _ _ _ _ heq).1]
    exact hsource
  · rcases hpresents _ hproof with
      ⟨known, hknown, message', heq⟩ | ⟨reader, sent, hsent, hsame⟩ | hno
    · rw [(hunforgeable _ _ _ _ heq).1]
      exact hknown
    · obtain ⟨known, message', heq, -, hpeer⟩ := hguarded.sent reader source sent hsent _ hsame
      rw [(hunforgeable _ _ _ _ heq).1]
      exact hpeer.resolve_left hdishonest
    · exact absurd rfl (hno secret message)

/-- Whoever is answered a private read knows the secret of the replica, if private reads go only to
parties that know the secret or are nodes. -/
theorem private_answer_needs_secret {start : ReadNetwork E}
    {h : List (Event (ReadNetwork E) (ReadOp E) (Option DocReadResponse))}
    (hunforgeable : codec.Unforgeable) (hfresh : start.Fresh codec)
    (htrace : Trace (ReadStep codec honest) start h net)
    (htrusted : ∀ event ∈ h, ReadTrusted honest event)
    {event : Event (ReadNetwork E) (ReadOp E) (Option DocReadResponse)} (hevent : event ∈ h)
    {server source : E} {request : Request} {response : DocReadResponse}
    (hop : event.op = .answer server source request) (hret : event.ret = some response)
    (hprivate : privateReplica request.replica = true) :
  ∃ lookup secret, (event.before.readers server).privateSecret = some lookup ∧
    lookup request.replica = some secret ∧ secret ∈ event.before.knows source
  := by
  obtain ⟨before, after, rfl⟩ := List.append_of_mem hevent
  obtain ⟨hbefore, hstep, -⟩ := htrace.split_event
  have hinit : start.Guarded codec honest := by
    refine ⟨hfresh.uses, ?_⟩
    intro _ _ _ hsent
    rw [hfresh.sent] at hsent
    cases hsent
  have hguarded : event.before.Guarded codec honest :=
    hbefore.invariant_of_forall
      (fun event hmem => htrusted event (List.mem_append_left _ hmem)) hinit
      fun _ _ _ _ hguarded hstep htrusted => guarded_of_step hguarded hstep htrusted
  rw [hop, hret] at hstep
  obtain ⟨hsends, hserve⟩ := sends_of_answer hstep
  obtain ⟨lookup, secret, message, hlookup, hsecret, hproof⟩ := proof_of_serve hserve hprivate
  rw [hguarded.uses server] at hproof
  exact ⟨lookup, secret, hlookup, hsecret, knows_of_sends hunforgeable hguarded hsends hproof⟩

end

/-! ### Samples -/

namespace CapabilitySample

def digits (bytes : Bytes) : String := String.ofList (Hex.encodeBytes bytes)

def codec : DocCodec where
  secretId secret := secret
  namespaceText := digits
  parseNamespace text := Hex.decodeBytes text.toList
  hash _ := []
  keyedHash secret message := digits secret ++ ("." ++ digits message)
  queryJson _ := []
  requestJson _ := []
  responseJson _ := []
  parseAuthor _ := none
  fields _ := none
  parseRecord _ := none
  valueHash _ := ""

def secret : Bytes := [7]

def replica : String := "channel::a"

def author : AuthorId := ⟨List.replicate 32 1, rfl⟩

/-- A node that has the replica. -/
def holder : DocReader where
  toDocCodec := codec
  privateSecret := some fun name => if name = replica then some secret else none
  docs name :=
    if name = secret then some ((∅ : DocsNamespace).insert (toLex (utf8 "k", author)) ⟨"hash", 1⟩)
    else none
  blob _ := none
  cache := none
  storedProfileRecord _ _ := .ok none
  now := 0

def query : DocReadQuery := .keys "" false 1 none

/-- The read that a node with the secret makes. -/
def request : Request :=
  ⟨1, replica, digits secret, query,
    some (privateCapabilityProof codec secret replica (digits secret) query)⟩

def response : DocReadResponse := .keys [⟨"k", "hash", 1, author.text⟩] false

/-- Parties `0` and `1` are nodes. -/
def honest (party : ℕ) : Prop := party ≠ 2

/-- The nodes know the secret, and party `2` does not. -/
def start : ReadNetwork ℕ where
  readers _ := holder
  knows party := if party = 2 then ∅ else {secret}
  sent := []

/-- Node `0` has sent its read to the given party. -/
def asked (peer : ℕ) : ReadNetwork ℕ :=
  { start with sent := [(0, peer, request)] }

theorem digits_injective :
  Function.Injective digits
  := by
  intro left right h
  have hchars := String.ofList_injective h
  have hleft := Hex.decodeBytes_encodeBytes left
  rw [hchars, Hex.decodeBytes_encodeBytes] at hleft
  exact (Option.some.inj hleft).symm

theorem unforgeable :
  codec.Unforgeable
  := by
  intro secret message secret' message' h
  have hdot : ∀ bytes, '.' ∉ (digits bytes).toList := by
    intro bytes hmem
    rw [digits, String.toList_ofList] at hmem
    exact absurd (Hex.isDigit_of_mem_encodeBytes hmem) (by decide)
  have hsplit : ∀ left right, Text.splitOnce '.' (codec.keyedHash left right) =
      some (digits left, digits right) := fun left right => Text.splitOnce_append (hdot left)
  have hparts := (hsplit secret message).symm.trans ((congrArg _ h).trans (hsplit secret' message'))
  obtain ⟨hleft, hright⟩ := Prod.mk.inj (Option.some.inj hparts)
  exact ⟨digits_injective hleft, digits_injective hright⟩

theorem read_step (peer : ℕ) :
  ReadStep codec honest start (.read 0 peer replica secret query) none (asked peer)
  := by
  have hrequest : Request.new codec replica secret query = .ok request := by decide +kernel
  have hzero : (0 : ℕ) ≠ 2 := by decide
  exact .read peer hzero (Set.mem_singleton secret) hrequest (Nat.zero_le _)

/-- Node `0` sends its read to a party, and then node `1` answers it to another one. -/
def history (peer source : ℕ) :
    List (Event (ReadNetwork ℕ) (ReadOp ℕ) (Option DocReadResponse)) :=
  [⟨start, .read 0 peer replica secret query, none, asked peer⟩,
    ⟨asked peer, .answer 1 source request, some response, asked peer⟩]

theorem fresh_start :
  start.Fresh codec
  := ⟨rfl, fun _ => rfl⟩

theorem trace_history {peer source : ℕ}
    (hsends : (asked peer).Sends codec honest source 1 request) :
  Trace (ReadStep codec honest) start (history peer source) (asked peer)
  := by
  have hone : (1 : ℕ) ≠ 2 := by decide
  have hanswer : ReadStep codec honest (asked peer) (.answer 1 source request)
      (serve holder request).toOption (asked peer) := .answer hone hsends
  exact (Trace.nil.snoc (read_step peer)).snoc hanswer

end CapabilitySample

open CapabilitySample

theorem private_answer_needs_secret_sample :
  Trace (ReadStep codec honest) start (history 1 0) (asked 1) ∧
    ∃ lookup secret, holder.privateSecret = some lookup ∧ lookup replica = some secret ∧
      secret ∈ (asked 1).knows 0
  := by
  have hsends : (asked 1).Sends codec honest 0 1 request :=
    .inl ⟨(by decide : (0 : ℕ) ≠ 2), .head _⟩
  have htrusted : ∀ event ∈ history 1 0, ReadTrusted honest event := by
    intro event hevent source peer name known asking hop _
    rcases List.mem_cons.mp hevent with rfl | hevent
    · cases hop
      exact .inl (by decide : (1 : ℕ) ≠ 2)
    · cases List.mem_singleton.mp hevent
      cases hop
  refine ⟨trace_history hsends, ?_⟩
  exact private_answer_needs_secret unforgeable fresh_start (trace_history hsends) htrusted
    (.tail _ (.head _)) rfl rfl (by decide +kernel : privateReplica replica = true)

/-- Node `0` sends its read to party `2`, which sends it on to node `1` and is answered. -/
theorem exists_forwarded_read :
  Trace (ReadStep codec honest) start (history 2 2) (asked 2) ∧ codec.Unforgeable ∧
    start.Fresh codec ∧ privateReplica request.replica = true ∧
    ∃ event ∈ history 2 2, event.op = .answer 1 2 request ∧ event.ret = some response ∧
      ∀ lookup secret, (event.before.readers 1).privateSecret = some lookup →
        lookup request.replica = some secret → secret ∉ event.before.knows 2
  := by
  have hsends : (asked 2).Sends codec honest 2 1 request := by
    refine .inr ⟨fun hhonest => hhonest rfl, ?_⟩
    intro proof hproof
    exact .inr (.inl ⟨0, request, .head _, hproof⟩)
  refine ⟨trace_history hsends, unforgeable, fresh_start, by decide +kernel, _, .tail _ (.head _),
    rfl, rfl, ?_⟩
  intro lookup known _ _ hknown
  exact Set.notMem_empty known hknown

end PageRead

end Kukuri
