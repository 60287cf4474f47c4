import QubicLedger.FourQ.SchnorrQ
import QubicLedger.Session.Send
import QubicLedger.Session.Signer

/-!
# What a returned signature is worth

The session and the curve together, for a device that runs the curve of
`deps/FourQ_ARM` (`fourQArm`). Whatever the run, the 64 bytes that an approval
returns are a signature under the derived key of the digest in the context:
`turn_answersSignature` says of what, `answersSignature` that it is so in every
turn of every run, `approve_clear_signature` goes on to the transaction on
screen, and `client_signature` to the client that sent it.

A signature does not always verify. `NoFalseCarry` is the condition on the
derived key and the digest under which it does: that neither the recoding of
the key nor that of the nonce carries out of a word that is not zero.
-/

namespace QubicLedger

open Lib (FixedBuf bytesLE)

/-! ## One signature -/

/-- What the recodings add, as it shows in the equation of a signature. -/
def signatureDrift (subseed publicKey digest signature : List UInt8) : ℤ :=
  scalarOf (challengeOf (signature.take 32) publicKey digest)
      * scalarDrift (scalarDigits (signingKey subseed))
    - scalarDrift (scalarDigits (nonceOf subseed digest))

/-- Neither recoding behind a signature hands on a false carry. -/
structure NoFalseCarry (subseed digest : List UInt8) : Prop where
  key : scalarExcess (scalarDigits (signingKey subseed)) = 0
  nonce : scalarExcess (scalarDigits (nonceOf subseed digest)) = 0

instance (subseed digest : List UInt8) : Decidable (NoFalseCarry subseed digest) :=
  decidable_of_iff (_ ∧ _) ⟨fun h => ⟨h.1, h.2⟩, fun h => ⟨h.key, h.nonce⟩⟩

/-- The bytes are a signature of the digest by the key of the subseed. -/
structure IsSchnorr (subseed publicKey digest signature : List UInt8) : Prop where
  key : publicKey = (schnorrQKeyGeneration fourQArm subseed).cells
  length : signature.length = 64
  reduced : bytesLE (signature.drop 32) < order
  verifies : Verifies publicKey digest signature ↔
    (order : ℤ) ∣ signatureDrift subseed publicKey digest signature

/-- Without false carries it verifies. -/
theorem IsSchnorr.verifies_of_noFalseCarry {subseed publicKey digest signature : List UInt8}
    (h : IsSchnorr subseed publicKey digest signature) (hexact : NoFalseCarry subseed digest) :
    Verifies publicKey digest signature := by
  have hkey : (scalarDigits (signingKey subseed)).length = 8 :=
    (scalarDigits_spec (by rw [length_signingKey]; decide)).1
  have hnonce : (scalarDigits (nonceOf subseed digest)).length = 8 :=
    (scalarDigits_spec (by rw [nonceOf, length_kangarooTwelve _ (by decide)]; decide)).1
  rw [h.verifies, signatureDrift, scalarDrift_eq_zero hkey hexact.key,
    scalarDrift_eq_zero hnonce hexact.nonce, mul_zero, sub_zero]
  exact dvd_zero _

/-- What a derived key pair makes of a digest is a signature of it. -/
theorem signatureOf_isSchnorr {keypair : QubicKeypair}
    (hkey : keypair.publicKey = schnorrQKeyGeneration fourQArm keypair.subseed.cells)
    (mHash : FixedBuf UInt8 transactionDigestLen) :
    IsSchnorr keypair.subseed.cells keypair.publicKey.cells mHash.cells
      (signatureOf fourQArm keypair mHash).cells := by
  obtain ⟨signature, hsign, hlt, hverifies⟩ :=
    schnorrQSign_verifies_iff keypair.subseed.cells mHash.size_eq
  rw [← hkey] at hsign hverifies
  have hsame : signatureOf fourQArm keypair mHash = signature := by
    unfold signatureOf
    simp only [hsign, Option.get_some]
  rw [hsame]
  exact ⟨congrArg FixedBuf.cells hkey, signature.size_eq, hlt, hverifies⟩

/-! ## A transfer of the derived key's own -/

/-- The sample device with the curve. -/
def curveDevice (build : Build) : Device := { sampleDevice build with fourQ := fourQArm }

/-- A transfer of one unit to the sample key. -/
def transferFrom (source : FixedBuf UInt8 addressLen) : TransactionQubic :=
  { sourcePublicKey := source
    destinationPublicKey := samplePublicKey
    amount := 1
    tick := 123456
    inputType := 0
    inputSize := 0 }

theorem transferFrom_valid (secretKey : List UInt8) :
    (transferFrom (schnorrQKeyGeneration fourQArm secretKey)).Valid :=
  ⟨schnorrQKeyGeneration_ne_zero secretKey, (by decide : samplePublicKey ≠ .fill _ 0),
    (by decide : (1 : UInt64) ≠ 0)⟩

/-- The app after its own key's transfer was sent: the review is on screen, and
approving it signs. -/
structure AwaitsApproval (keypair : QubicKeypair) (out : App × Log) : Prop where
  run : (machine (curveDevice .nbgl)).Run out.1 out.2
  prompt : Lib.Machine.Throughout Prompt out.2
  review : ∃ r, out.1.screen = some r ∧ r.kind = .clear
  blind : out.1.storage.settings.allowBlindSign ≠ blindSignEnabled
  signs : Action.sign keypair.subseed.cells keypair.publicKey.cells
      (digestOf (transferFrom keypair.publicKey).serialize).cells
    ∈ (step (curveDevice .nbgl) out.1 (.decide true)).2

theorem awaitsApproval :
    ∃ keypair out, deriveQubicKeypair (curveDevice .nbgl).sdk fourQArm (storedPath samplePath)
        (UInt8.ofNat samplePath.length) = .ok keypair ∧ AwaitsApproval keypair out := by
  have hderives : ∃ keypair, deriveQubicKeypair (curveDevice .nbgl).sdk fourQArm
      (storedPath samplePath) (UInt8.ofNat samplePath.length) = .ok keypair :=
    deriveQubicKeypair_ok fourQArm rfl
  obtain ⟨keypair, hkey⟩ := hderives
  have hvalid : (transferFrom keypair.publicKey).Valid :=
    deriveQubicKeypair_publicKey hkey ▸ transferFrom_valid _
  generalize htransaction : (transferFrom keypair.publicKey).serialize = transaction at *
  have hparse : Parses transaction := htransaction ▸ parses_serialize hvalid
  have hdecode : decodeTransaction transaction = transferFrom keypair.publicKey := by
    rw [← htransaction, decodeTransaction_serialize]
  have hstart : (machine (curveDevice .nbgl)).Run (appMain .default) [] := .start ⟨.default, rfl⟩
  have hlen : transaction.length = 80 := hparse.1
  -- path and transaction make one message
  obtain ⟨chunk, hchunk⟩ := splitMessage_single (pathPrefix samplePath ++ transaction)
    (List.cons_ne_nil _ _) (by rw [List.length_append, length_pathPrefix, hlen]; decide)
  have hevents : signTxMessages samplePath transaction
      = [.apdu (signTxCommand (UInt8.ofNat 0) p2Last chunk)] := by
    rw [signTxMessages, hchunk, signTxEvents]
  generalize Event.apdu (signTxCommand (UInt8.ofNat 0) p2Last chunk) = e at hevents
  have hsent := send_signTx (curveDevice .nbgl) [] (s := appMain .default) rfl
    (by decide : samplePath ≠ []) (by decide) transaction
  have hrun := send_run (curveDevice .nbgl) hstart (signTxMessages samplePath transaction)
  rw [hevents, send_last] at hrun hsent
  dsimp only at hsent
  rw [if_pos (by rw [hlen]; decide)] at hsent
  have hreceived := received_openedAt samplePath transaction
    (by rw [hlen]; decide)
  obtain ⟨hpost, -⟩ := hsent
  rw [signTxFinish_eq, hreceived, if_pos hparse] at hpost
  refine ⟨keypair, _, hkey, hrun, ⟨prompt_of_no_screen rfl, trivial⟩, ?_, ?_, ?_⟩
  · rw [hpost]
    exact ⟨_, rfl, clearReview_kind _ _ _⟩
  · rw [hpost]
    exact (by decide : InternalStorage.default.settings.allowBlindSign ≠ blindSignEnabled)
  · have happrove : Approves ((machine (curveDevice .nbgl)).turn (appMain .default) e).post
        (.decide true) := by
      rw [hpost]
      exact ⟨rfl, rfl, _, rfl, by rw [clearReview_kind]; simp⟩
    have hpass : PassesSourceCheck ((machine (curveDevice .nbgl)).turn (appMain .default) e).post
        keypair := by
      rw [hpost]
      refine Or.inr ?_
      show _ = (deserializeTransaction _ (GlobalCtx.received _)).2.sourcePublicKey
      rw [hreceived, hparse.deserialize, hdecode]
      rfl
    have hactions := step_approve_signed (curveDevice .nbgl) happrove
      (by rw [hpost]; exact hkey) hpass
    rw [hactions, hpost, htransaction]
    dsimp only
    rw [show ((GlobalCtx.openedAt .confirmTransaction samplePath).appended
      transaction).finished.txInfo.mHash = digestOf transaction by
        rw [GlobalCtx.finished, hreceived]]
    exact List.mem_cons_of_mem _ (List.mem_cons_self ..)

/-! ## Every turn -/

/-- Whatever is signed is the digest in the context, and the answer is its signature. -/
def AnswersSignature (t : Turn) (_ : Log) : Prop :=
  ∀ subseed publicKey digest, Action.sign subseed publicKey digest ∈ t.actions →
    digest = t.pre.ctx.txInfo.mHash.cells ∧
    ∃ signature, IsSchnorr subseed publicKey digest signature ∧
      Action.respond (64 :: signature) .ok ∈ t.actions

variable {dev : Device} {s : App} {log : Log}

theorem turn_answersSignature (hdev : dev.fourQ = fourQArm) (e : Event)
    (hrun : (machine dev).Run s log) : AnswersSignature ((machine dev).turn s e) log := by
  intro subseed publicKey digest hmem
  obtain ⟨keypair, hkey, -, rfl, rfl, rfl, hanswer⟩ := sign_mem_cases (rawTxLen_le hrun) hmem
  have hpair := deriveQubicKeypair_publicKey hkey
  rw [hdev] at hpair hanswer
  exact ⟨rfl, _, signatureOf_isSchnorr hpair _, hanswer⟩

/-- In every run, whatever is signed is answered with its signature. -/
theorem answersSignature (hdev : dev.fourQ = fourQArm) (hrun : (machine dev).Run s log) :
    Lib.Machine.Throughout AnswersSignature log := by
  apply Lib.Machine.Run.throughout _ hrun
  intro s log e hrun
  exact turn_answersSignature hdev e hrun

theorem answersSignature_own :
    ∃ (keypair : QubicKeypair) (s : App) (signature : List UInt8),
      IsSchnorr keypair.subseed.cells keypair.publicKey.cells
        (digestOf (transferFrom keypair.publicKey).serialize).cells signature ∧
      Action.respond (64 :: signature) .ok
        ∈ (step (curveDevice .nbgl) s (.decide true)).2 := by
  obtain ⟨keypair, out, -, hawaits⟩ := awaitsApproval
  have hturns := answersSignature (rfl : (curveDevice .nbgl).fourQ = fourQArm)
    (hawaits.run.step (.decide true))
  have hlast : AnswersSignature ((machine (curveDevice .nbgl)).turn out.1 (.decide true)) out.2 :=
    hturns.1
  obtain ⟨-, signature, hschnorr, hanswer⟩ := hlast _ _ _ hawaits.signs
  exact ⟨keypair, out.1, signature, hschnorr, hanswer⟩

/-! ## What was on screen -/

/-- When every review is decided before the next command and blind signing is off,
a signature that comes of a clear review is the displayed sender's signature
of the displayed transaction; it verifies if no false carry gets in its way. -/
theorem approve_clear_signature (hdev : dev.fourQ = fourQArm) (hrun : (machine dev).Run s log)
    (hprompt : Lib.Machine.Throughout Prompt log) {r : Review} (hscreen : s.screen = some r)
    (hkind : r.kind = .clear) (hblind : s.storage.settings.allowBlindSign ≠ blindSignEnabled)
    {subseed publicKey digest : List UInt8}
    (hmem : Action.sign subseed publicKey digest ∈ (step dev s (.decide true)).2) :
    let tx := decodeTransaction (accepted log)
    r = clearReview dev.build s.storage.settings tx ∧ Parses (accepted log) ∧
    publicKey = tx.sourcePublicKey.cells ∧
    digest = kangarooTwelve (accepted log) transactionDigestLen ∧
    ∃ signature, Action.respond (64 :: signature) .ok ∈ (step dev s (.decide true)).2 ∧
      IsSchnorr subseed tx.sourcePublicKey.cells digest signature ∧
      (NoFalseCarry subseed digest → Verifies tx.sourcePublicKey.cells digest signature) := by
  intro tx
  obtain ⟨-, hshown, hsource, hhash⟩ := run_madeFrom hrun hprompt r hscreen hkind
  have hon := run_onScreen hrun r hscreen
  obtain ⟨keypair, hkey, hpass, rfl, rfl, rfl, hanswer⟩ := sign_mem_cases (rawTxLen_le hrun) hmem
  have hpair := deriveQubicKeypair_publicKey hkey
  rw [hdev] at hpair hanswer
  have hsender : keypair.publicKey = tx.sourcePublicKey := by
    rw [hpass.resolve_left hblind, hsource]
  have hschnorr := signatureOf_isSchnorr hpair s.ctx.txInfo.mHash
  rw [hsender] at hschnorr
  refine ⟨?_, hshown ▸ hon.parses hkind, congrArg FixedBuf.cells hsender, ?_, _, hanswer, hschnorr,
    hschnorr.verifies_of_noFalseCarry⟩
  · rw [hon.clear hkind, hshown]
  · rw [hhash]
    exact FixedBuf.cells_write_full (length_kangarooTwelve _ (by decide))

theorem approve_clear_signature_own :
    ∃ (log : Log) (signature : List UInt8),
      Parses (accepted log) ∧
      ∃ s, Action.respond (64 :: signature) .ok ∈ (step (curveDevice .nbgl) s (.decide true)).2 := by
  obtain ⟨keypair, out, -, hawaits⟩ := awaitsApproval
  obtain ⟨r, hscreen, hkind⟩ := hawaits.review
  obtain ⟨-, hparse, -, -, signature, hanswer, -⟩ := approve_clear_signature
    (rfl : (curveDevice .nbgl).fourQ = fourQArm) hawaits.run hawaits.prompt hscreen hkind
    hawaits.blind hawaits.signs
  exact ⟨out.2, signature, hparse, out.1, hanswer⟩

/-! ## What the client gets -/

/-- The client of an idle app gets an answer with data for an approval exactly if
its messages are at most four and the app signs for the transaction; the data is
the signature of the transaction by the derived key. -/
theorem client_signature (hdev : dev.fourQ = fourQArm) (log : Log) (hlive : s.exited = false)
    (hscreen : s.screen = none) {path : List UInt32} (hpath : path ≠ [])
    (hmax : path.length ≤ maxBip32Path) {keypair : QubicKeypair}
    (hkey : deriveQubicKeypair dev.sdk fourQArm (storedPath path) (UInt8.ofNat path.length)
      = .ok keypair) (transaction : List UInt8) :
    let digest := kangarooTwelve transaction transactionDigestLen
    let out := send dev s log (signTxMessages path transaction)
    let answers := ((machine dev).turn out.1 (.decide true)).actions
    ((∃ rdata, Action.respond rdata .ok ∈ answers) ↔
      1 + 4 * path.length + transaction.length ≤ 1020 ∧
      SignsFor s.storage.settings keypair transaction) ∧
    ∀ rdata, Action.respond rdata .ok ∈ answers →
      ∃ signature, rdata = 64 :: signature ∧
        IsSchnorr keypair.subseed.cells keypair.publicKey.cells digest signature ∧
        (NoFalseCarry keypair.subseed.cells digest →
          Verifies keypair.publicKey.cells digest signature) := by
  intro digest out answers
  have hget := respond_ok_mem_send_iff dev log hlive hscreen hpath hmax
    (by rw [hdev]; exact hkey) transaction
  refine ⟨?_, ?_⟩
  · constructor
    · rintro ⟨rdata, hmem⟩
      obtain ⟨hfit, hsigns, -⟩ := (hget rdata).mp hmem
      exact ⟨hfit, hsigns⟩
    · rintro ⟨hfit, hsigns⟩
      exact ⟨_, (hget _).mpr ⟨hfit, hsigns, rfl⟩⟩
  · intro rdata hmem
    obtain ⟨-, -, rfl⟩ := (hget rdata).mp hmem
    have hschnorr := signatureOf_isSchnorr (deriveQubicKeypair_publicKey hkey)
      (digestOf transaction)
    rw [digestOf_cells, ← hdev] at hschnorr
    exact ⟨_, rfl, hschnorr, hschnorr.verifies_of_noFalseCarry⟩

/-- The transfer of the derived key's own, for a device fresh from the factory. -/
theorem client_signature_own :
    ∃ keypair : QubicKeypair,
      let out := send (curveDevice .nbgl) (appMain .default) []
        (signTxMessages samplePath (transferFrom keypair.publicKey).serialize)
      ∃ rdata, Action.respond rdata .ok
        ∈ ((machine (curveDevice .nbgl)).turn out.1 (.decide true)).actions := by
  obtain ⟨keypair, out, hkey, -⟩ := awaitsApproval
  have hvalid : (transferFrom keypair.publicKey).Valid :=
    deriveQubicKeypair_publicKey hkey ▸ transferFrom_valid _
  refine ⟨keypair, ?_⟩
  apply (client_signature (rfl : (curveDevice .nbgl).fourQ = fourQArm) [] rfl rfl (by decide)
    (by decide) hkey (transferFrom keypair.publicKey).serialize).1.mpr
  refine ⟨?_, Or.inr ⟨parses_serialize hvalid, ?_⟩⟩
  · rw [TransactionQubic.length_serialize]
    decide
  · rw [decodeTransaction_serialize]
    rfl

end QubicLedger
