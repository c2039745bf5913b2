import Mathlib.Data.Option.Basic

/-!
# What the app runs on

Images, their JPEG data, download URLs and clock readings belong to the system frameworks.  The
model is generic in them; the theorems that need one of their documented properties name it.
-/

namespace LadyBook

/-- The optionals that the app unwraps by force. -/
inductive Unwrapped where
  | articleId
  | titleLabel
  | articleLabel
  | writingImageView
  | url
  deriving DecidableEq, Repr

/-- What stops the app. -/
inductive Trap where
  | unwrappedNil (what : Unwrapped)
  | indexOutOfRange
  deriving DecidableEq, Repr

structure Platform where
  UIImage : Type
  Data : Type
  URL : Type
  /-- `TimeInterval`, a `Double`. -/
  TimeInterval : Type
  /-- The asset `image`, which the storyboard shows in `WritingViewController.writingImageView`. -/
  image : UIImage
  /-- `jpegData(compressionQuality: 0.8)`. -/
  jpegData : UIImage → Option Data
  /-- The string interpolation of a `TimeInterval`. -/
  interpolate : TimeInterval → String
  absoluteString : URL → String
  /-- `URL(string:)`. -/
  urlOfString : String → Option URL
  /-- The path of the Storage object that an absolute URL string designates. -/
  objectPath : String → Option String

namespace Platform

/-- Interpolating a `Double` gives equal strings for equal values only. -/
def InterpolatesFaithfully (P : Platform) : Prop := Function.Injective P.interpolate

/-- `URL(string: u.absoluteString)` is not nil. -/
def ParsesURLs (P : Platform) : Prop := ∀ u, (P.urlOfString (P.absoluteString u)).isSome

/-- A concrete platform: an image is its own data, a clock reading is written as its decimal
digits, and a download URL is the path of its object. -/
abbrev sample : Platform where
  UIImage := String
  Data := String
  URL := String
  TimeInterval := String
  image := "image"
  jpegData := some
  interpolate := id
  absoluteString := id
  urlOfString := some
  objectPath := some

theorem sample_interpolatesFaithfully : sample.InterpolatesFaithfully := Function.injective_id

end Platform

end LadyBook
