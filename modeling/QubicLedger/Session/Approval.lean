import QubicLedger.Session.Effect

/-!
# Approving a transaction

`Approves` is an event that confirms a transaction review on screen. What
comes of it depends on three things only: whether the key derivation throws,
whether the derived key is the source of the parsed transaction, and whether
blind signing is on (`step_approve_threw`, `step_approve_mismatch`,
`step_approve_signed`). Nothing else in the app signs (`sign_mem_step_iff`),
and nothing but GET_PUBLIC_KEY derives a key otherwise (`derive_mem_step`).
-/

namespace QubicLedger

open Lib (FixedBuf)

/-- The user confirms the transaction review on screen. -/
structure Approves (s : App) (e : Event) : Prop where
  live : s.exited = false
  confirm : e = .decide true
  review : ∃ r, s.screen = some r ∧ r.kind ≠ .address

/-- The key pair derived from the path in the context. -/
def derivedKeypair (dev : Device) (ctx : GlobalCtx) : Except UInt32 QubicKeypair :=
  deriveQubicKeypair dev.sdk dev.fourQ ctx.bip32Path ctx.bip32PathLen

/-- The source check of `crypto_sign_message`. -/
def PassesSourceCheck (s : App) (keypair : QubicKeypair) : Prop :=
  s.storage.settings.allowBlindSign = blindSignEnabled ∨
    keypair.publicKey = s.ctx.txInfo.transactionQubic.sourcePublicKey

/-- An approval that ends in a call of `SchnorrQ_Sign`. -/
def Signs (dev : Device) (s : App) (e : Event) : Prop :=
  Approves s e ∧ ∃ keypair, derivedKeypair dev s.ctx = .ok keypair ∧ PassesSourceCheck s keypair

/-- On the sample device every path derives the sample key. -/
theorem derivedKeypair_sampleDevice (build : Build) (ctx : GlobalCtx) :
    ∃ keypair, derivedKeypair (sampleDevice build) ctx = .ok keypair ∧
      keypair.publicKey = samplePublicKey := by
  refine ⟨_, rfl, ?_⟩
  exact if_pos (length_kangarooTwelve _ (by decide))

section Approve

variable (dev : Device) {s : App} {e : Event}

/-- The callback of a transaction review, confirmed. -/
theorem reviewChoice_approve (app : App) {kind : ReviewKind} (hkind : kind ≠ .address) :
    reviewChoice dev app kind true
      = if (validateTransaction dev app true).1.exited then validateTransaction dev app true
        else ((validateTransaction dev app true).1,
          (validateTransaction dev app true).2 ++ closingPage dev.build .transactionSigned) := by
  cases kind with
  | address => exact absurd rfl hkind
  | clear => rfl
  | blind => rfl

theorem step_approve (h : Approves s e) :
    step dev s e
      = if (validateTransaction dev { s with screen := none } true).1.exited then
          validateTransaction dev { s with screen := none } true
        else ((validateTransaction dev { s with screen := none } true).1,
          (validateTransaction dev { s with screen := none } true).2
            ++ closingPage dev.build .transactionSigned) := by
  obtain ⟨hlive, rfl, r, hscreen, hkind⟩ := h
  rw [step_decide dev true hlive hscreen, reviewChoice_approve dev _ hkind]

theorem step_approve_threw (h : Approves s e) {err : UInt32}
    (hkey : derivedKeypair dev s.ctx = .error err) :
    (step dev s e).2 = [.derive s.ctx.bip32Path s.ctx.bip32PathLen, .throw err] := by
  rw [step_approve dev h, validateTransaction_threw dev { s with screen := none } hkey]
  rfl

theorem step_approve_mismatch (h : Approves s e) {keypair : QubicKeypair}
    (hkey : derivedKeypair dev s.ctx = .ok keypair) (hfail : ¬PassesSourceCheck s keypair) :
    (step dev s e).2
      = .derive s.ctx.bip32Path s.ctx.bip32PathLen :: ioSendSw .signatureFail
        :: closingPage dev.build .transactionSigned := by
  rw [step_approve dev h, validateTransaction_mismatch dev { s with screen := none } hkey
    (fun hon => hfail (Or.inl hon)) (fun heq => hfail (Or.inr heq)),
    if_neg (by rw [h.live]; exact Bool.false_ne_true)]
  rfl

theorem step_approve_signed (h : Approves s e) {keypair : QubicKeypair}
    (hkey : derivedKeypair dev s.ctx = .ok keypair) (hpass : PassesSourceCheck s keypair) :
    (step dev s e).2
      = .derive s.ctx.bip32Path s.ctx.bip32PathLen
        :: .sign keypair.subseed.cells keypair.publicKey.cells s.ctx.txInfo.mHash.cells
        :: .respond (64 :: (signatureOf dev.fourQ keypair s.ctx.txInfo.mHash).cells) .ok
        :: closingPage dev.build .transactionSigned := by
  rw [step_approve dev h, validateTransaction_signed dev { s with screen := none } hkey hpass,
    if_neg (by rw [h.live]; exact Bool.false_ne_true)]
  rfl

end Approve

/-! ## Only approvals derive and sign -/

/-- A decision that approves no transaction only answers and shows a page. -/
theorem reviewChoice_quiet (dev : Device) {app : App} {kind : ReviewKind} {confirm : Bool}
    (h : kind = .address ∨ confirm = false) :
    ∀ a ∈ (reviewChoice dev app kind confirm).2,
      (∃ rdata sw, a = .respond rdata sw) ∨ ∃ page, a = .status page := by
  intro a ha
  have hclose : ∀ page, a ∈ closingPage dev.build page → ∃ page, a = .status page :=
    fun page hmem => ⟨page, closingPage_status hmem⟩
  have hrefused : a ∈ (validateTransaction dev app false).2 → ∃ rdata sw, a = .respond rdata sw :=
    fun hmem => ⟨[], .deny, List.mem_singleton.mp hmem⟩
  unfold reviewChoice at ha
  cases kind with
  | address =>
    rcases List.mem_append.mp ha with hmem | hmem
    · left
      cases confirm with
      | true => exact ⟨_, _, List.mem_singleton.mp hmem⟩
      | false => exact ⟨_, _, List.mem_singleton.mp hmem⟩
    · exact Or.inr (hclose _ hmem)
  | clear | blind =>
    obtain rfl : confirm = false := h.resolve_left (by simp)
    dsimp only at ha
    split at ha
    · exact Or.inl (hrefused ha)
    · rcases List.mem_append.mp ha with hmem | hmem
      · exact Or.inl (hrefused hmem)
      · exact Or.inr (hclose _ hmem)

/-- A decision that does anything else confirms a transaction. -/
theorem approves_of_decision {dev : Device} {s : App} {r : Review} {confirm : Bool}
    (hlive : s.exited = false) (hscreen : s.screen = some r) {a : Action}
    (hmem : a ∈ (reviewChoice dev { s with screen := none } r.kind confirm).2)
    (hrespond : ∀ rdata sw, a ≠ .respond rdata sw) (hstatus : ∀ page, a ≠ .status page) :
    Approves s (.decide confirm) := by
  have hloud : ¬(r.kind = .address ∨ confirm = false) := by
    intro h
    rcases reviewChoice_quiet dev h a hmem with ⟨rdata, sw, ha⟩ | ⟨page, ha⟩
    · exact hrespond rdata sw ha
    · exact hstatus page ha
  rw [not_or, Bool.not_eq_false] at hloud
  obtain ⟨hkind, rfl⟩ := hloud
  exact ⟨hlive, rfl, r, hscreen, hkind⟩

/-- Where an action comes from: answers, copies and reviews aside, a command that
asks for a key, or a decision. -/
theorem action_mem_step {dev : Device} {s : App} {e : Event}
    (hlen : s.ctx.txInfo.rawTxLen ≤ maxTransactionLen) {a : Action} (hmem : a ∈ (step dev s e).2) :
    ((∃ rdata sw, a = .respond rdata sw) ∨ (∃ pos size offset, a = .append pos size offset) ∨
      (∃ r, a = .review r) ∨ ∃ err, a = .throw err) ∨
    (∃ display data path, s.request e = .getPublicKey display data ∧ pathOf data = some path ∧
      a = .derive (storedPath path) (UInt8.ofNat path.length)) ∨
    ∃ r confirm, s.exited = false ∧ e = .decide confirm ∧ s.screen = some r ∧
      a ∈ (reviewChoice dev { s with screen := none } r.kind confirm).2 := by
  have heffect := step_effect dev e hlen
  generalize (step dev s e).1 = s' at heffect
  generalize (step dev s e).2 = acts at heffect hmem
  have hanswer : ∀ {sw}, a ∈ [ioSendSw sw] → ∃ rdata sw, a = .respond rdata sw :=
    fun hsent => ⟨[], _, List.mem_singleton.mp hsent⟩
  cases heffect with
  | idle storage acts hreq hstorage hacts =>
    rcases hacts with rfl | ⟨rdata, sw, rfl⟩
    · exact absurd hmem List.not_mem_nil
    · exact Or.inl (Or.inl ⟨rdata, sw, List.mem_singleton.mp hmem⟩)
  | decided r confirm hreq hlive he hscreen =>
    exact Or.inr (Or.inr ⟨r, confirm, hlive, he, hscreen, hmem⟩)
  | pubkeyRefused => exact Or.inl (Or.inl (hanswer hmem))
  | pubkeyThrew display data path err hreq hpath =>
    rcases List.mem_pair.mp hmem with ha | ha
    · exact Or.inr (Or.inl ⟨display, data, path, hreq, hpath, ha⟩)
    · exact Or.inl (Or.inr (Or.inr (Or.inr ⟨err, ha⟩)))
  | pubkeySent data path keypair hreq hpath =>
    rcases List.mem_pair.mp hmem with ha | ha
    · exact Or.inr (Or.inl ⟨false, data, path, hreq, hpath, ha⟩)
    · exact Or.inl (Or.inl ⟨_, _, ha⟩)
  | pubkeyShown data path keypair hreq hpath =>
    rcases List.mem_pair.mp hmem with ha | ha
    · exact Or.inr (Or.inl ⟨true, data, path, hreq, hpath, ha⟩)
    · exact Or.inl (Or.inr (Or.inr (Or.inl ⟨_, ha⟩)))
  | firstRefused => exact Or.inl (Or.inl (hanswer hmem))
  | firstEmpty => exact Or.inl (Or.inl (hanswer hmem))
  | nextRefused => exact Or.inl (Or.inl (hanswer hmem))
  | kept | rejected =>
    rcases List.mem_pair.mp hmem with ha | ha
    · exact Or.inl (Or.inr (Or.inl ⟨_, _, _, ha⟩))
    · exact Or.inl (Or.inl ⟨_, _, ha⟩)
  | shownClear | shownBlind =>
    rcases List.mem_pair.mp hmem with ha | ha
    · exact Or.inl (Or.inr (Or.inl ⟨_, _, _, ha⟩))
    · exact Or.inl (Or.inr (Or.inr (Or.inl ⟨_, ha⟩)))

/-- An event whose actions include a signature is an approval. -/
theorem approves_of_sign_mem {dev : Device} {s : App} {e : Event}
    (hlen : s.ctx.txInfo.rawTxLen ≤ maxTransactionLen) {subseed publicKey digest : List UInt8}
    (hmem : Action.sign subseed publicKey digest ∈ (step dev s e).2) : Approves s e := by
  rcases action_mem_step hlen hmem with
    hother | ⟨display, data, path, -, -, ha⟩ | ⟨r, confirm, hlive, rfl, hscreen, hdecided⟩
  · exact absurd hother (by simp)
  · exact absurd ha (by simp)
  · exact approves_of_decision hlive hscreen hdecided (by simp) (by simp)

/-- Every signature is made by an approval that passes the source check. -/
theorem sign_mem_step_iff (dev : Device) {s : App} {e : Event}
    (hlen : s.ctx.txInfo.rawTxLen ≤ maxTransactionLen) :
    (∃ subseed publicKey digest, Action.sign subseed publicKey digest ∈ (step dev s e).2) ↔
      Signs dev s e := by
  constructor
  · intro h
    obtain ⟨subseed, publicKey, digest, hmem⟩ := h
    have happrove := approves_of_sign_mem hlen hmem
    refine ⟨happrove, ?_⟩
    have hclose : Action.sign subseed publicKey digest
        ∉ closingPage dev.build .transactionSigned :=
      fun hpage => absurd (closingPage_status hpage) (by simp)
    cases hkey : derivedKeypair dev s.ctx with
    | error err =>
      rw [step_approve_threw dev happrove hkey] at hmem
      exact absurd hmem (by simp)
    | ok keypair =>
      refine ⟨keypair, rfl, ?_⟩
      by_contra hfail
      rw [step_approve_mismatch dev happrove hkey hfail] at hmem
      simp [ioSendSw, hclose] at hmem
  · intro h
    obtain ⟨happrove, keypair, hkey, hpass⟩ := h
    rw [step_approve_signed dev happrove hkey hpass]
    exact ⟨_, _, _, List.mem_cons_of_mem _ (List.mem_cons_self ..)⟩

/-- A signature is made with the derived key, of the digest in the context, and
answered. -/
theorem sign_mem_cases {dev : Device} {s : App} {e : Event}
    (hlen : s.ctx.txInfo.rawTxLen ≤ maxTransactionLen) {subseed publicKey digest : List UInt8}
    (hmem : Action.sign subseed publicKey digest ∈ (step dev s e).2) :
    ∃ keypair, derivedKeypair dev s.ctx = .ok keypair ∧ PassesSourceCheck s keypair ∧
      subseed = keypair.subseed.cells ∧ publicKey = keypair.publicKey.cells ∧
      digest = s.ctx.txInfo.mHash.cells ∧
      Action.respond (64 :: (signatureOf dev.fourQ keypair s.ctx.txInfo.mHash).cells) .ok
        ∈ (step dev s e).2 := by
  obtain ⟨happrove, keypair, hkey, hpass⟩ :=
    (sign_mem_step_iff dev hlen).mp ⟨subseed, publicKey, digest, hmem⟩
  rw [step_approve_signed dev happrove hkey hpass] at hmem ⊢
  have hsame : subseed = keypair.subseed.cells ∧ publicKey = keypair.publicKey.cells ∧
      digest = s.ctx.txInfo.mHash.cells := by
    rcases List.mem_cons.mp hmem with h | hmem
    · cases h
    · rcases List.mem_cons.mp hmem with h | hmem
      · injection h with hsub hpub hdigest
        exact ⟨hsub, hpub, hdigest⟩
      · rcases List.mem_cons.mp hmem with h | hmem
        · cases h
        · exact absurd (closingPage_status hmem) (by simp)
  obtain ⟨hsub, hpub, hdigest⟩ := hsame
  exact ⟨keypair, hkey, hpass, hsub, hpub, hdigest,
    List.mem_cons_of_mem _ (List.mem_cons_of_mem _ (List.mem_cons_self ..))⟩

/-- What is signed is the digest in the context. -/
theorem sign_digest {dev : Device} {s : App} {e : Event}
    (hlen : s.ctx.txInfo.rawTxLen ≤ maxTransactionLen) {subseed publicKey digest : List UInt8}
    (hmem : Action.sign subseed publicKey digest ∈ (step dev s e).2) :
    digest = s.ctx.txInfo.mHash.cells := by
  obtain ⟨hlive, rfl, r, hscreen, -⟩ := approves_of_sign_mem hlen hmem
  rw [step_decide dev true hlive hscreen] at hmem
  exact reviewChoice_actions dev { s with screen := none } r.kind true _ hmem

/-! ## Approving an address -/

/-- The key in the union is returned. -/
theorem step_approve_address (dev : Device) {s : App} {r : Review} (hlive : s.exited = false)
    (hscreen : s.screen = some r) (hkind : r.kind = .address) :
    (step dev s (.decide true)).2
      = .respond s.ctx.rawPublicKey .ok :: closingPage dev.build .addressVerified := by
  rw [step_decide dev true hlive hscreen, hkind]
  rfl

/-- It is the only data returned, and only by a live app. -/
theorem respond_mem_approve_address (dev : Device) {s : App} {r : Review} {rdata : List UInt8}
    (hscreen : s.screen = some r) (hkind : r.kind = .address) :
    Action.respond rdata .ok ∈ (step dev s (.decide true)).2 ↔
      s.exited = false ∧ rdata = s.ctx.rawPublicKey := by
  cases hexited : s.exited with
  | true =>
    rw [step, if_pos hexited]
    simp
  | false =>
    rw [step_approve_address dev hexited hscreen hkind, List.mem_cons]
    constructor
    · intro h
      rcases h with heq | hpage
      · injection heq with hrdata
        exact ⟨rfl, hrdata⟩
      · exact absurd (closingPage_status hpage) (by simp)
    · intro h
      rw [h.2]
      exact Or.inl rfl

/-! ## Who derives -/

/-- An approval derives with the path in the context, however it goes on. -/
theorem step_approve_derives (dev : Device) {s : App} {e : Event} (h : Approves s e) :
    Action.derive s.ctx.bip32Path s.ctx.bip32PathLen ∈ (step dev s e).2 := by
  cases hkey : derivedKeypair dev s.ctx with
  | error err =>
    rw [step_approve_threw dev h hkey]
    exact List.mem_cons_self ..
  | ok keypair =>
    by_cases hpass : PassesSourceCheck s keypair
    · rw [step_approve_signed dev h hkey hpass]
      exact List.mem_cons_self ..
    · rw [step_approve_mismatch dev h hkey hpass]
      exact List.mem_cons_self ..

/-- GET_PUBLIC_KEY derives with the path it carries. -/
theorem step_getPublicKey_derives (dev : Device) {s : App} {e : Event} {display : Bool}
    {data : List UInt8} {path : List UInt32} (hreq : s.request e = .getPublicKey display data)
    (hpath : pathOf data = some path) :
    Action.derive (storedPath path) (UInt8.ofNat path.length) ∈ (step dev s e).2 := by
  rw [step_getPublicKey dev hreq]
  cases hkey : deriveQubicKeypair dev.sdk dev.fourQ (storedPath path)
      (UInt8.ofNat path.length) with
  | error err =>
    rw [handlerGetPublicKey_threw dev s display hpath hkey]
    exact List.mem_cons_self ..
  | ok keypair =>
    rw [handlerGetPublicKey_derived dev s display hpath hkey]
    cases display with
    | true => exact List.mem_cons_self ..
    | false => exact List.mem_cons_self ..

/-- Nothing else derives. -/
theorem derive_mem_step {dev : Device} {s : App} {e : Event}
    (hlen : s.ctx.txInfo.rawTxLen ≤ maxTransactionLen) {p : FixedBuf UInt32 maxBip32Path}
    {n : UInt8} (hmem : Action.derive p n ∈ (step dev s e).2) :
    (∃ display data path, s.request e = .getPublicKey display data ∧ pathOf data = some path ∧
      p = storedPath path ∧ n = UInt8.ofNat path.length) ∨
    (Approves s e ∧ p = s.ctx.bip32Path ∧ n = s.ctx.bip32PathLen) := by
  rcases action_mem_step hlen hmem with
    hother | ⟨display, data, path, hreq, hpath, ha⟩ | ⟨r, confirm, hlive, rfl, hscreen, hdecided⟩
  · exact absurd hother (by simp)
  · injection ha with hp hn
    exact Or.inl ⟨display, data, path, hreq, hpath, hp, hn⟩
  · exact Or.inr ⟨approves_of_decision hlive hscreen hdecided (by simp) (by simp),
      reviewChoice_actions dev _ r.kind confirm _ hdecided⟩

end QubicLedger
