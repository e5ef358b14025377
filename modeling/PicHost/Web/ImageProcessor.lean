import PicHost.Core.Models

/-!
# Preprocessing of an image in the browser

`processFile` runs on the main thread or in the worker. Drawing and encoding belong to the
browser and are a parameter.
-/

namespace PicHost.Web

structure File where
  name : String
  type : String
  content : Bytes
deriving DecidableEq, Inhabited

structure Blob where
  type : String
  content : Bytes

/-- What a promise is rejected with. -/
inductive Thrown
  | error (message : String)
  | other
deriving DecidableEq

/-- `err instanceof Error ? err.message : fallback`. -/
def Thrown.message (fallback : String) : Thrown → String
  | .error message => message
  | .other => fallback

structure ResizePrefs where
  enabled : Bool
  maxWidth : ℕ
  maxHeight : ℕ

inductive TargetFormat
  | jpeg
  | png
  | webp

/-- `targetFormat.split('/')[1]`. -/
def TargetFormat.ext : TargetFormat → String
  | .jpeg => "jpeg"
  | .png => "png"
  | .webp => "webp"

structure FormatConvertPrefs where
  enabled : Bool
  targetFormat : TargetFormat
  quality : ℕ

structure CompressionPrefs where
  enabled : Bool
  quality : ℕ

inductive Degrees
  | none
  | quarter
  | half
  | threeQuarter

structure RotatePrefs where
  enabled : Bool
  degrees : Degrees

structure PreprocessingPrefs where
  stripExif : Bool := false
  resize : ResizePrefs := ⟨false, 1920, 1920⟩
  formatConvert : FormatConvertPrefs := ⟨false, .webp, 85⟩
  compression : CompressionPrefs := ⟨false, 80⟩
  rotate : RotatePrefs := ⟨false, .none⟩

namespace PreprocessingPrefs

def needsCanvas (prefs : PreprocessingPrefs) : Bool :=
  prefs.resize.enabled || prefs.formatConvert.enabled || prefs.compression.enabled ||
    prefs.rotate.enabled

def needsProcessing (prefs : PreprocessingPrefs) : Bool :=
  prefs.stripExif || prefs.resize.enabled || prefs.formatConvert.enabled ||
    prefs.compression.enabled || prefs.rotate.enabled

end PreprocessingPrefs

/-- How many arguments a call may have, and what a call with more throws. -/
structure Engine where
  maxArguments : ℕ
  rangeError : String

/-- `push(...bytes)`: every byte is an argument of the call. -/
def Engine.spread (engine : Engine) (bytes : Bytes) : Except Thrown Bytes :=
  if bytes.length ≤ engine.maxArguments then .ok bytes else .error (.error engine.rangeError)

/-- The loop of `stripExifFromJpeg` on the bytes that are left; every turn takes one at least. -/
def stripLoop (engine : Engine) : ℕ → Bytes → Except Thrown Bytes
  | 0, _ | _, [] => .ok []
  | fuel + 1, byte :: rest =>
    match rest with
    | [] => .ok [byte]
    | marker :: segment =>
      if byte = 0xFF ∧ marker = 0xE1 then
        match segment with
        | hi :: lo :: _ => stripLoop engine fuel (segment.drop (hi.toNat * 256 + lo.toNat))
        | _ => stripLoop engine fuel segment
      else if byte = 0xFF ∧ marker = 0xDA then engine.spread (byte :: rest)
      else (stripLoop engine fuel rest).map (byte :: ·)

def stripExifFromJpeg (engine : Engine) (bytes : Bytes) : Except Thrown Bytes :=
  if [0xFF, 0xD8] <+: bytes then do
    let result ← stripLoop engine bytes.length bytes
    .ok (if [0xFF, 0xD9] <:+ bytes ∧ ¬ [0xFF, 0xD9] <:+ result then result ++ [0xFF, 0xD9]
      else result)
  else .ok bytes

/-- The name up to its last dot, unless that is its first character. -/
def baseName (name : String) : String :=
  match name.toList.reverse.dropWhile (· ≠ '.') with
  | _ :: b :: before => String.ofList (b :: before).reverse
  | _ => name

/-- What the browser does itself. -/
structure Browser (Bitmap : Type) where
  engine : Engine
  offscreenCanvas : Bool
  createImageBitmap : File → Except Thrown Bitmap
  drawAndEncode : Bitmap → PreprocessingPrefs → String → Except Thrown Blob

variable {Bitmap : Type} (browser : Browser Bitmap)

def applyCanvasOperations (source : Bitmap) (prefs : PreprocessingPrefs) (originalType : String) :
    Except Thrown Blob :=
  if browser.offscreenCanvas then browser.drawAndEncode source prefs originalType
  else .error (.error "OffscreenCanvas not available")

def processFile (file : File) (prefs : PreprocessingPrefs) : Except Thrown File :=
  if prefs.needsProcessing then do
    let content ←
      if prefs.stripExif && file.type == "image/jpeg" then
        stripExifFromJpeg browser.engine file.content
      else .ok file.content
    if prefs.needsCanvas then
      let bitmap ← browser.createImageBitmap { file with content }
      let blob ← applyCanvasOperations browser bitmap prefs file.type
      let name :=
        if prefs.formatConvert.enabled then
          baseName file.name ++ "." ++ prefs.formatConvert.targetFormat.ext
        else file.name
      .ok ⟨name, if blob.type = "" then file.type else blob.type, blob.content⟩
    else .ok { file with content }
  else .ok file

end PicHost.Web
