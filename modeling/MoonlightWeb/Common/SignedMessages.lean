import MoonlightWeb.Common.PairingCrypto
import MoonlightWeb.Frontend.PairingCrypto

/-! # What a signature covers

Both languages put every field behind its length, so the fields can be read
back from the bytes, and the first field keeps the two roles apart.
-/

namespace MoonlightWeb.Common.PairingCrypto

open Js Lib Qt
open Bootstrap.Pairing (Field)
open JsString

theorem bigEndian32_eq (n : Nat) : bigEndian32 n = Bytes.bigEndian 4 n := by
  simp [bigEndian32, Bytes.bigEndian, Nat.div_div_eq_div_mul]

theorem buildSignedMessage_eq (fields : List QByteArray) :
    buildSignedMessage fields = Bytes.lengthPrefixed 4 fields := by
  simp only [buildSignedMessage, Bytes.lengthPrefixed, bigEndian32_eq]

theorem page_buildSignedMessage_eq (fields : List Field) :
    Bootstrap.Pairing.buildSignedMessage fields =
      buildSignedMessage (fields.map Field.part) := by
  rw [Bootstrap.Pairing.buildSignedMessage_eq, buildSignedMessage_eq]

theorem role_part (role : String) (h : isWellFormed (qs (protocol ++ role)) = true)
    (hascii : QString.toUtf8 (qs (protocol ++ role)) = QByteArray.ofAscii (protocol ++ role)) :
    encode (qs (Bootstrap.Pairing.protocol ++ role)) =
      QByteArray.ofAscii (protocol ++ role) := by
  rw [← hascii]
  exact encode_eq_toUtf8 h

theorem page_hostDigestInput_eq {hostId browserKeyId fingerprintHost : JsString}
    (nonceB : List UInt8) (hid : isWellFormed hostId = true)
    (hkey : isWellFormed browserKeyId = true)
    (hfp : isWellFormed fingerprintHost = true) :
    Bootstrap.Pairing.hostDigestInput hostId browserKeyId nonceB fingerprintHost =
      hostDigestInput hostId browserKeyId nonceB fingerprintHost := by
  have hrole := role_part "|host" (by decide +kernel) (by decide +kernel)
  rw [Bootstrap.Pairing.hostDigestInput, page_buildSignedMessage_eq]
  simp only [List.map_cons, List.map_nil, Field.part, hrole, encode_eq_toUtf8 hid,
    encode_eq_toUtf8 hkey, encode_eq_toUtf8 hfp]
  rfl

theorem page_browserDigestInput_eq {hostId fingerprintHost fingerprintBrowser : JsString}
    (nonceH : List UInt8) (hid : isWellFormed hostId = true)
    (hhost : isWellFormed fingerprintHost = true)
    (hbrowser : isWellFormed fingerprintBrowser = true) :
    Bootstrap.Pairing.browserDigestInput hostId nonceH fingerprintHost fingerprintBrowser =
      browserDigestInput hostId nonceH fingerprintHost fingerprintBrowser := by
  have hrole := role_part "|browser" (by decide +kernel) (by decide +kernel)
  rw [Bootstrap.Pairing.browserDigestInput, page_buildSignedMessage_eq]
  simp only [List.map_cons, List.map_nil, Field.part, hrole, encode_eq_toUtf8 hid,
    encode_eq_toUtf8 hhost, encode_eq_toUtf8 hbrowser]
  rfl

/-- The length in front of the role differs. -/
theorem roles_apart (hostId browserKeyId hostId' fingerprintHost fingerprintHost'
    fingerprintBrowser : QString) (nonceB nonceH : QByteArray) :
    hostDigestInput hostId browserKeyId nonceB fingerprintHost ≠
      browserDigestInput hostId' nonceH fingerprintHost' fingerprintBrowser := by
  intro heq
  have hfirst := congrArg (List.take 4) heq
  have hhost : (hostDigestInput hostId browserKeyId nonceB fingerprintHost).take 4 =
      bigEndian32 15 := rfl
  have hbrowser : (browserDigestInput hostId' nonceH fingerprintHost' fingerprintBrowser).take 4 =
      bigEndian32 18 := rfl
  rw [hhost, hbrowser] at hfirst
  revert hfirst
  decide

/-- The framing is injective, the roles never meet, and the three builders
give the same bytes. -/
theorem signed_messages :
    (∀ fields fields' : List QByteArray, (∀ f ∈ fields, f.length < 2 ^ 32) →
      (∀ f ∈ fields', f.length < 2 ^ 32) →
      buildSignedMessage fields = buildSignedMessage fields' → fields = fields') ∧
    (∀ hostId browserKeyId hostId' fingerprintHost fingerprintHost' fingerprintBrowser
        nonceB nonceH,
      hostDigestInput hostId browserKeyId nonceB fingerprintHost ≠
        browserDigestInput hostId' nonceH fingerprintHost' fingerprintBrowser) ∧
    (∀ fields : List Field,
      Bootstrap.Pairing.buildSignedMessage fields = buildSignedMessage (fields.map Field.part) ∧
      Frontend.PairingCrypto.buildSignedMessage fields =
        buildSignedMessage (fields.map Field.part)) ∧
    (∀ hostId browserKeyId fingerprintHost nonceB,
      isWellFormed hostId = true → isWellFormed browserKeyId = true →
      isWellFormed fingerprintHost = true →
      Bootstrap.Pairing.hostDigestInput hostId browserKeyId nonceB fingerprintHost =
        hostDigestInput hostId browserKeyId nonceB fingerprintHost ∧
      Frontend.PairingCrypto.hostDigestInput hostId browserKeyId nonceB fingerprintHost =
        hostDigestInput hostId browserKeyId nonceB fingerprintHost) ∧
    (∀ hostId fingerprintHost fingerprintBrowser nonceH,
      isWellFormed hostId = true → isWellFormed fingerprintHost = true →
      isWellFormed fingerprintBrowser = true →
      Bootstrap.Pairing.browserDigestInput hostId nonceH fingerprintHost fingerprintBrowser =
        browserDigestInput hostId nonceH fingerprintHost fingerprintBrowser ∧
      Frontend.PairingCrypto.browserDigestInput hostId nonceH fingerprintHost fingerprintBrowser =
        browserDigestInput hostId nonceH fingerprintHost fingerprintBrowser) := by
  refine ⟨?_, roles_apart, ?_, ?_, ?_⟩
  · intro fields fields' hshort hshort' heq
    rw [buildSignedMessage_eq, buildSignedMessage_eq] at heq
    have hpow : 256 ^ 4 = 2 ^ 32 := by norm_num
    exact Bytes.lengthPrefixed_injective (by omega) (hpow ▸ hshort) (hpow ▸ hshort') heq
  · intro fields
    exact ⟨page_buildSignedMessage_eq fields, page_buildSignedMessage_eq fields⟩
  · intro hostId browserKeyId fingerprintHost nonceB hid hkey hfp
    have hpage := page_hostDigestInput_eq nonceB hid hkey hfp
    exact ⟨hpage, hpage⟩
  · intro hostId fingerprintHost fingerprintBrowser nonceH hid hhost hbrowser
    have hpage := page_browserDigestInput_eq nonceH hid hhost hbrowser
    exact ⟨hpage, hpage⟩

/-- Bytes cannot move across a field boundary. -/
theorem boundary_kept : buildSignedMessage [[0x61, 0x62], [0x63]] ≠
    buildSignedMessage [[0x61], [0x62, 0x63]] := by
  intro heq
  have hsame := signed_messages.1 [[0x61, 0x62], [0x63]] [[0x61], [0x62, 0x63]] (by decide)
    (by decide) heq
  revert hsame
  decide

/-- What a browser put its name to. -/
structure Signed where
  hostId : QByteArray
  nonceHost : QByteArray
  fingerprintHost : QByteArray
  fingerprintBrowser : QByteArray

def Signed.fields (a : Signed) : List QByteArray :=
  [QByteArray.ofAscii (protocol ++ "|browser"), a.hostId, a.nonceHost, a.fingerprintHost,
    a.fingerprintBrowser]

def Signed.Short (a : Signed) : Prop := ∀ f ∈ a.fields, f.length < 2 ^ 32

instance (a : Signed) : Decidable a.Short := inferInstanceAs (Decidable (∀ f ∈ _, _))

/-- Only what is signed verifies under the key, and nothing is signed without a nonce. -/
structure Unforged (C : Crypto) (spki : QByteArray) (signed : List Signed) : Prop where
  verifies : ∀ message sig, C.verify spki message sig = true →
    ∃ a ∈ signed, message = buildSignedMessage a.fields
  nonces : ∀ a ∈ signed, a.nonceHost ≠ [] ∧ a.Short

theorem fields_injective {a b : Signed} (ha : a.Short) (hb : b.Short)
    (h : buildSignedMessage a.fields = buildSignedMessage b.fields) : a = b := by
  rw [buildSignedMessage_eq, buildSignedMessage_eq] at h
  have hpow : 256 ^ 4 = 2 ^ 32 := by norm_num
  have hfields := Bytes.lengthPrefixed_injective (by omega) (hpow ▸ ha) (hpow ▸ hb) h
  simp only [Signed.fields, List.cons.injEq, and_true, true_and] at hfields
  obtain ⟨hid, hnonce, hhost, hbrowser⟩ := hfields
  cases a
  cases b
  simp_all

theorem nonce_of_fields {a b : Signed} (ha : a.Short) (hid : b.hostId.length < 2 ^ 32)
    (hnonce : b.nonceHost = []) (h : buildSignedMessage b.fields = buildSignedMessage a.fields) :
    a.nonceHost = [] := by
  have hpow : 256 ^ 4 = 2 ^ 32 := by norm_num
  have hfits : ∀ f ∈ a.fields, f.length < 256 ^ 4 := hpow ▸ ha
  rw [buildSignedMessage_eq, buildSignedMessage_eq] at h
  obtain ⟨-, hrole⟩ := Bytes.lengthPrefixed_cons_inj (by decide +kernel) (by decide +kernel) h
  obtain ⟨-, hhost⟩ := Bytes.lengthPrefixed_cons_inj (hpow ▸ hid) (hfits _ (by simp [Signed.fields]))
    hrole
  obtain ⟨hsame, -⟩ := Bytes.lengthPrefixed_cons_inj (by simp [hnonce])
    (hfits _ (by simp [Signed.fields])) hhost
  rw [← hsame, hnonce]

end MoonlightWeb.Common.PairingCrypto
