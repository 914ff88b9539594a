import Kukuri.Core.Dome

/-!
# Signed envelopes

An envelope carries a content together with its signer. Its identifier is the digest of
everything but the signature. Encoding, digest and signature scheme are parameters:
`EnvelopePrimitives` collects them, and `EnvelopePrimitives.Binds` is what the development
assumes of the first two.
-/

namespace Kukuri

open Result

structure KukuriEnvelope where
  id : String
  pubkey : Pubkey
  createdAt : ℤ
  kind : String
  tags : List (List String)
  content : String
  sig : String
  deriving DecidableEq, Repr

/-- The operations of other libraries that an envelope is verified with. -/
structure EnvelopePrimitives where
  /-- The JSON text of the signed part. -/
  canonicalEnvelopePayload : Pubkey → ℤ → String → List (List String) → String → String
  /-- The SHA-256 digest of a text, in hexadecimal digits. -/
  sha256Hex : String → String
  isSignature : String → Bool
  isPublicKey : Pubkey → Bool
  /-- Whether the signature, the digest and the public key match. -/
  verifySchnorr : String → String → Pubkey → Bool

/-- The identifier that the signed part of an envelope has. -/
def EnvelopePrimitives.computedId (primitives : EnvelopePrimitives) (envelope : KukuriEnvelope) :
    String :=
  primitives.sha256Hex (primitives.canonicalEnvelopePayload envelope.pubkey envelope.createdAt
    envelope.kind envelope.tags envelope.content)

/-- The identifier tells the envelopes apart, unless they agree in signer, kind and
content. -/
def EnvelopePrimitives.Binds (primitives : EnvelopePrimitives) (left right : KukuriEnvelope) :
    Prop :=
  primitives.computedId left = primitives.computedId right →
    left.pubkey = right.pubkey ∧ left.kind = right.kind ∧ left.content = right.content

def KukuriEnvelope.verify (primitives : EnvelopePrimitives) (envelope : KukuriEnvelope) :
    Result Unit := do
  bailIf (primitives.computedId envelope ≠ envelope.id) "envelope id mismatch"
  bailIf (¬ primitives.isSignature envelope.sig) "invalid envelope sig"
  bailIf (¬ primitives.isPublicKey envelope.pubkey) "invalid envelope pubkey"
  bailIf (¬ primitives.verifySchnorr envelope.sig (primitives.computedId envelope)
      envelope.pubkey)
    "envelope signature verification failed"

/-- Whether the envelope is a valid one of the given kind, signer and content. -/
def verifyEnvelopeContent {T : Type} [DecidableEq T] (primitives : EnvelopePrimitives)
    (decode : String → Option T) (envelope : KukuriEnvelope) (expectedKind : String)
    (expectedSigner : Pubkey) (expectedContent : T) : Result Unit := do
  envelope.verify primitives
  bailIf (envelope.kind ≠ expectedKind ∨ envelope.pubkey ≠ expectedSigner)
    "Dome Hosting envelope authority mismatch"
  let decoded ← context (decode envelope.content) "invalid Dome Hosting envelope content"
  bailIf (decoded ≠ expectedContent) "Dome Hosting envelope content mismatch"

section

variable {T : Type} [DecidableEq T] {primitives : EnvelopePrimitives}
  {decode : String → Option T} {envelope : KukuriEnvelope} {kind : String} {signer : Pubkey}
  {content : T}

/-- A verified envelope has its own identifier, the signer, and a content that decodes to
what was expected. -/
theorem verifyEnvelopeContent_eq_ok
    (hverify : verifyEnvelopeContent primitives decode envelope kind signer content = .ok ()) :
  primitives.computedId envelope = envelope.id ∧ envelope.kind = kind ∧
    envelope.pubkey = signer ∧ decode envelope.content = some content
  := by
  obtain ⟨_, henvelope, hverify⟩ := bind_eq_ok.mp hverify
  obtain ⟨hid, -⟩ := bailIf_bind_eq_ok.mp henvelope
  obtain ⟨hauthority, hverify⟩ := bailIf_bind_eq_ok.mp hverify
  obtain ⟨decoded, hdecoded, hverify⟩ := bind_eq_ok.mp hverify
  obtain ⟨hkind, hsigner⟩ := not_or.mp hauthority
  have hcontent := not_not.mp (bailIf_eq_ok.mp hverify)
  rw [← hcontent]
  exact ⟨not_not.mp hid, not_not.mp hkind, not_not.mp hsigner, context_eq_ok.mp hdecoded⟩

/-- Envelopes with the same identifier carry the same content. -/
theorem content_eq_of_id_eq {envelope' : KukuriEnvelope} {kind' : String} {signer' : Pubkey}
    {content' : T} (hbinds : primitives.Binds envelope envelope')
    (hverify : verifyEnvelopeContent primitives decode envelope kind signer content = .ok ())
    (hverify' : verifyEnvelopeContent primitives decode envelope' kind' signer' content' = .ok ())
    (hid : envelope.id = envelope'.id) :
  content = content'
  := by
  obtain ⟨hcomputed, -, -, hdecode⟩ := verifyEnvelopeContent_eq_ok hverify
  obtain ⟨hcomputed', -, -, hdecode'⟩ := verifyEnvelopeContent_eq_ok hverify'
  obtain ⟨-, -, hcontent⟩ := hbinds (by rw [hcomputed, hcomputed', hid])
  rw [hcontent, hdecode'] at hdecode
  apply (Option.some.inj hdecode).symm

end

end Kukuri
