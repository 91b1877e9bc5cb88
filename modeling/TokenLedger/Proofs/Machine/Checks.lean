import TokenLedger.Machine.Run
import TokenLedger.Proofs.Outcome
import TokenLedger.Proofs.Signature.RoundTrip

/-!
# What passes the machine's checks

The encodings of a signature and a key, and the lock time that a script demands, are checked by
guards in a row. Here each row is one condition.
-/

namespace TokenLedger

/-- The digest of a script that was parsed is that of its bytes. -/
theorem SignatureHash.digestOfProgram_eq {script : Script}
    (parsed : Script.parse script.program = .ok script) (tx : Transaction) (index : Nat)
    (hashType : HashType) :
    digestOfProgram tx index script.program hashType = digest tx index script hashType :=
  except_bind_of_ok parsed

namespace Environment

/-- An empty signature has no encoding to check, and a key is looked at under one rule only. -/
theorem checkEncodings_eq_ok_iff (env : Environment) (signature key : Bytes) :
    env.checkEncodings signature key = .ok () ↔
      (env.flags.requiresCanonical = true → signature ≠ [] →
        TransactionSignature.hasStrictLayout signature = true ∧
        (env.flags.has .strictEncoding = true →
          TransactionSignature.hasDefinedHashType signature = true)) ∧
      (env.flags.has .strictEncoding = true → PublicKey.isPlainEncoding key = true) := by
  simp only [checkEncodings, Bool.and_eq_true, Bool.not_eq_true', List.isEmpty_eq_false_iff]
  by_cases looked : env.flags.requiresCanonical = true ∧ signature ≠ []
  · rw [if_pos looked, guard_bind_eq_ok, guard_bind_eq_ok, guard_eq_ok, except_pure_eq_ok]
    grind
  · rw [if_neg looked, guard_eq_ok, except_pure_eq_ok]
    grind

/-- Without the rules on encodings everything passes them. -/
theorem checkEncodings_of_lax {env : Environment} (lax : env.flags.requiresCanonical = false)
    (signature key : Bytes) : env.checkEncodings signature key = .ok () := by
  have plain : env.flags.has .strictEncoding = false := by
    rw [Flags.requiresCanonical, Bool.or_eq_false_iff] at lax
    exact lax.1
  rw [checkEncodings_eq_ok_iff, lax, plain]
  simp

/-- A signature is accepted for a key if it is one of the digest that its own hash type asks for. -/
theorem checkSignature_eq_ok_true_iff (env : Environment) (connected : Script)
    (signature key : Bytes) :
    env.checkSignature connected signature key = .ok true ↔
      env.checkEncodings signature key = .ok () ∧
      ∃ context decoded publicKey digest, env.context = some context ∧
        TransactionSignature.decode false (env.flags.has .lowS) signature = .ok decoded ∧
        PublicKey.decode? key = some publicKey ∧
        SignatureHash.digest context.tx context.inputIndex connected decoded.hashType =
          .ok digest ∧
        Ecdsa.verify publicKey digest decoded.ecdsa = true := by
  unfold checkSignature
  rw [except_bind_eq_ok]
  constructor
  · rintro ⟨_, rules, later⟩
    refine ⟨rules, ?_⟩
    split at later
    · cases later
    next context known =>
      split at later
      next decoded publicKey readSignature readKey =>
        obtain ⟨digest, digested, verified⟩ := except_bind_eq_ok.mp later
        exact ⟨context, decoded, publicKey, digest, known, readSignature, readKey, digested,
          except_pure_eq_ok.mp verified⟩
      next => cases later
  · rintro ⟨rules, context, decoded, publicKey, digest, known, readSignature, readKey, digested,
      verified⟩
    refine ⟨(), rules, ?_⟩
    simp only [known, readSignature, readKey]
    exact except_bind_eq_ok.mpr ⟨digest, digested, except_pure_eq_ok.mpr verified⟩

/-- A signature as it is written is accepted for a key that it verifies for. -/
theorem checkSignature_encode {env : Environment} {context : SpendContext} {connected : Script}
    {signature : TransactionSignature} {key : Bytes} {publicKey : PublicKey} {digest : Hash256}
    (known : env.context = some context) (lax : env.flags.requiresCanonical = false)
    (low : env.flags.has .lowS = true → signature.ecdsa.isLowS = true)
    (readsKey : PublicKey.decode? key = some publicKey)
    (digested : SignatureHash.digest context.tx context.inputIndex connected signature.hashType =
      .ok digest)
    (verified : Ecdsa.verify publicKey digest signature.ecdsa = true) :
    env.checkSignature connected signature.encode key = .ok true :=
  (checkSignature_eq_ok_true_iff env connected signature.encode key).mpr
    ⟨checkEncodings_of_lax lax _ _, context, signature, publicKey, digest, known,
      TransactionSignature.decode_encode_of_low low, readsKey, digested, verified⟩

/-- Without the rules on encodings only the signature of the digest matters. The digest of a script
that the parser can read is that of its program. -/
theorem checkSignature_of_lax_eq_ok_true_iff {env : Environment} {context : SpendContext}
    {connected : Script} {signature key : Bytes} (known : env.context = some context)
    (lax : env.flags.requiresCanonical = false) (high : env.flags.has .lowS = false)
    (parsed : Script.parse connected.program = .ok connected) :
    env.checkSignature connected signature key = .ok true ↔
      ∃ decoded publicKey digest,
        TransactionSignature.decode false false signature = .ok decoded ∧
        PublicKey.decode? key = some publicKey ∧
        SignatureHash.digestOfProgram context.tx context.inputIndex connected.program
          decoded.hashType = .ok digest ∧
        Ecdsa.verify publicKey digest decoded.ecdsa = true := by
  simp only [checkSignature_eq_ok_true_iff, checkEncodings_of_lax lax, high, known,
    SignatureHash.digestOfProgram_eq parsed, true_and, Option.some.injEq]
  constructor
  · rintro ⟨_, decoded, publicKey, digest, rfl, accepted⟩
    exact ⟨decoded, publicKey, digest, accepted⟩
  · rintro ⟨decoded, publicKey, digest, accepted⟩
    exact ⟨context, decoded, publicKey, digest, rfl, accepted⟩

/-- All that a signature has to pass to be accepted for a key and the script that it commits to: the
rules on encodings that are switched on, and then, read leniently, to be one of the digest of the
script under its own hash type. -/
structure PassesCheck (flags : Flags) (context : SpendContext) (connected : Script)
    (signature key : Bytes) : Prop where
  layout : flags.requiresCanonical = true → signature ≠ [] →
    TransactionSignature.hasStrictLayout signature = true
  hashType : flags.has .strictEncoding = true → signature ≠ [] →
    TransactionSignature.hasDefinedHashType signature = true
  plainKey : flags.has .strictEncoding = true → PublicKey.isPlainEncoding key = true
  verifies : ∃ decoded publicKey digest,
    TransactionSignature.decode false (flags.has .lowS) signature = .ok decoded ∧
    PublicKey.decode? key = some publicKey ∧
    SignatureHash.digest context.tx context.inputIndex connected decoded.hashType = .ok digest ∧
    Ecdsa.verify publicKey digest decoded.ecdsa = true

theorem checkSignature_eq_ok_true_iff_passesCheck {env : Environment} {context : SpendContext}
    {connected : Script} {signature key : Bytes} (known : env.context = some context) :
    env.checkSignature connected signature key = .ok true ↔
      PassesCheck env.flags context connected signature key := by
  have canonical : env.flags.has .strictEncoding = true → env.flags.requiresCanonical = true := by
    intro strict
    rw [Flags.requiresCanonical, strict, Bool.true_or]
  rw [checkSignature_eq_ok_true_iff, checkEncodings_eq_ok_iff]
  constructor
  · rintro ⟨⟨rules, plain⟩, same, decoded, publicKey, digest, here, verified⟩
    obtain rfl : context = same := Option.some.inj (known.symm.trans here)
    exact ⟨fun required signed => (rules required signed).1,
      fun strict signed => (rules (canonical strict) signed).2 strict, plain,
      decoded, publicKey, digest, verified⟩
  · rintro ⟨layout, hashType, plain, decoded, publicKey, digest, verified⟩
    exact ⟨⟨fun required signed => ⟨layout required signed, fun strict => hashType strict signed⟩,
      plain⟩, context, decoded, publicKey, digest, known, verified⟩

/-- Without the rules on encodings a signature only has to verify. -/
theorem passesCheck_iff_of_lax {flags : Flags} {context : SpendContext} {connected : Script}
    {signature key : Bytes} (lax : flags.requiresCanonical = false) :
    PassesCheck flags context connected signature key ↔
      ∃ decoded publicKey digest,
        TransactionSignature.decode false (flags.has .lowS) signature = .ok decoded ∧
        PublicKey.decode? key = some publicKey ∧
        SignatureHash.digest context.tx context.inputIndex connected decoded.hashType =
          .ok digest ∧
        Ecdsa.verify publicKey digest decoded.ecdsa = true := by
  have anyKey : flags.has .strictEncoding = false := by
    rw [Flags.requiresCanonical, Bool.or_eq_false_iff] at lax
    exact lax.1
  constructor
  · exact PassesCheck.verifies
  · intro verifies
    exact ⟨by simp [lax], by simp [anyKey], by simp [anyKey], verifies⟩

/-- A lock time is satisfied by the input being spent only, and only while that is not final. -/
theorem checkLockTime_eq_ok_iff (env : Environment) (stack : Stack) :
    env.checkLockTime stack = .ok () ↔
      ∃ top rest required context input,
        stack = top :: rest ∧
        ScriptNumber.decode ScriptNumber.lockTimeWidth env.flags.requiresMinimal top =
          .ok required ∧
        0 ≤ required ∧ env.context = some context ∧
        LockTime.satisfies context.tx.lockTime.toNat required = true ∧
        context.tx.inputs[context.inputIndex]? = some input ∧ input.isFinal = false := by
  unfold checkLockTime
  split
  · simp [throw, throwThe, MonadExceptOf.throw]
  next top rest =>
    simp only [except_bind_eq_ok]
    constructor
    · rintro ⟨required, decoded, passed⟩
      split at passed
      · cases passed
      next nonneg =>
        split at passed
        · cases passed
        next context =>
          split at passed
          · cases passed
          next satisfied =>
            split at passed
            · cases passed
            next input found =>
              split at passed
              · cases passed
              next final =>
                exact ⟨top, rest, required, _, input, rfl, decoded, Int.not_lt.mp nonneg, context,
                  by simpa using satisfied, found, by simpa using final⟩
    · rintro ⟨_, _, required, context, input, same, decoded, nonneg, known, satisfied, found, final⟩
      cases same
      refine ⟨required, decoded, ?_⟩
      simp [Int.not_lt.mpr nonneg, known, satisfied, found, final, pure, Except.pure]

end Environment

/-! ### Keys with known secrets -/

/-- The key whose secret is the number one, in 33 bytes. -/
def firstKey : Bytes := 0x02 :: Bytes.bigEndian 32 Secp256k1.Point.generator.x

def firstPublicKey : PublicKey where
  x := Secp256k1.Point.generator.x
  y := Secp256k1.Point.generator.y
  onCurve := by decide +kernel

theorem decode_firstKey : PublicKey.decode? firstKey = some firstPublicKey := by decide +kernel

def secondPublicKey : PublicKey where
  x := 0xc6047f9441ed7d6d3045406e95c07cd85c778e4b8cef3ca7abac09b95c709ee5
  y := 0x1ae168fea63dc339a3c58419466ceaeef7f632653266d0e1236431a950cfe52a
  onCurve := by decide +kernel

/-- The key whose secret is the number two, in 33 bytes. -/
def secondKey : Bytes := 0x02 :: Bytes.bigEndian 32 secondPublicKey.x

theorem decode_secondKey : PublicKey.decode? secondKey = some secondPublicKey := by decide +kernel

/-- A signature of all inputs and outputs that was made with the nonce one. -/
def signatureOfNonceOne (s : Nat) : TransactionSignature :=
  ⟨⟨.ofNat Secp256k1.Point.generator.x, .ofNat s⟩, ⟨0x01⟩⟩

end TokenLedger
