/-
  ComponentGraph.Purl.Reading
  ────────────────────────────────
  **PACKAGE URLS OF REPORTS.**

  A report gives package URLs as fields, and images by repo digests.  An
  error names the text that could not be used, and why.
-/
import ComponentGraph.Purl.Parse
import ComponentGraph.Image

namespace ComponentGraph

/-- Why a report's field gives no package URL. -/
inductive PackageUrlError where
  | unreadable (text : String) (cause : PurlError)
  /-- This text is no reference to an image by digest. -/
  | badImage (reference : String) (fault : Image.Fault)
  /-- What this reference says makes no package URL. -/
  | unbuildable (reference : String) (cause : PurlError)
  deriving Repr, DecidableEq

namespace PackageUrlError

def message : PackageUrlError → String
  | .unreadable text _ => "failed to parse purl \"" ++ text ++ "\""
  | .badImage reference fault => fault.message reference
  | .unbuildable reference _ => "failed to build oci purl for \"" ++ reference ++ "\""

def cause : PackageUrlError → Option PurlError
  | .unreadable _ cause | .unbuildable _ cause => some cause
  | .badImage _ _ => none

end PackageUrlError

namespace Purl

def read (f : Field) : Except PackageUrlError Purl :=
  match f with
  | some (.text s) => (parse s).mapError (.unreadable s)
  | f => .error (.unreadable f.inText (if f.isFilled then .noUrl else .noText))

/-- The qualifier that holds the path of an archive. -/
def filePathKey : String := "file_path"

/-- The ecosystem whose coordinates leave open where the archive lies. -/
def archiveType : String := "maven"

/-- Does this package URL take up the path of its file? -/
def takesPath (p : Purl) (filePath : Field) : Bool :=
  filePath.isFilled && p.type = archiveType

/-- The package URL with the path of its file, if it takes it up. -/
def withPath (p : Purl) (filePath : Field) : Purl :=
  if p.takesPath filePath then p.withQualifier filePathKey filePath.inText else p

end Purl

def Image.Reference.read (s : String) : Except PackageUrlError Image.Reference :=
  (Image.Reference.parse s).mapError (.badImage s)

end ComponentGraph
