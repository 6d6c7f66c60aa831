import MoonlightWeb.Qt.QString

/-! # The signed pairing messages

`buildSignedMessage` puts each field behind its length, so that a signature
covers the fields and not only their concatenation. Keys and signatures are
OpenSSL's and stay parameters.
-/

namespace MoonlightWeb.Common.PairingCrypto

open Qt

/-- `PROTOCOL`. -/
def protocol : String := "MW-BIND-v1"

/-- `MIN_NONCE_BYTES`. -/
def minNonceBytes : Nat := 16

/-- The functions that rest on OpenSSL. `sign` yields the empty array when it fails. -/
structure Crypto where
  isValidP256Spki : QByteArray → Bool
  keyId : QByteArray → QString
  sign : QByteArray → QByteArray → QByteArray
  verify : QByteArray → QByteArray → QByteArray → Bool

/-- `qToBigEndian<quint32>`. -/
def bigEndian32 (n : Nat) : QByteArray :=
  [UInt8.ofNat (n / 0x1000000), UInt8.ofNat (n / 0x10000), UInt8.ofNat (n / 0x100), UInt8.ofNat n]

def buildSignedMessage (fields : List QByteArray) : QByteArray :=
  fields.flatMap fun f => bigEndian32 f.length ++ f

def hostDigestInput (hostId browserKeyId : QString) (nonceB : QByteArray)
    (fingerprintHost : QString) : QByteArray :=
  buildSignedMessage [QByteArray.ofAscii (protocol ++ "|host"), hostId.toUtf8,
    browserKeyId.toUtf8, nonceB, fingerprintHost.toUtf8]

def browserDigestInput (hostId : QString) (nonceH : QByteArray)
    (fingerprintHost fingerprintBrowser : QString) : QByteArray :=
  buildSignedMessage [QByteArray.ofAscii (protocol ++ "|browser"), hostId.toUtf8, nonceH,
    fingerprintHost.toUtf8, fingerprintBrowser.toUtf8]

/-- A toy instance for runs on fixed inputs: a key is one byte and its own
public half, and a signature is the checksum of key and message. -/
def checksum : Crypto where
  isValidP256Spki spki := spki.length = 1
  keyId spki := spki.toQString
  sign key message := [(key ++ message).foldl (· + ·) 0]
  verify spki message sig := sig = [(spki ++ message).foldl (· + ·) 0]

end MoonlightWeb.Common.PairingCrypto
