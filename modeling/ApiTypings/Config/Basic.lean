import ApiTypings.File.Path
import ApiTypings.Url.Base

/-! # Configuration

Where documents come from, where the typings go, and what they look like.
-/

namespace ApiTypings

structure Config where
  shareId : Option String
  /-- The address of the service that holds the share. -/
  baseUrl : BaseUrl
  /-- The directory for the typings. A run replaces it. -/
  outputDir : Path
  /-- The module from which the functions import `request`. -/
  requestImport : String
  /-- The name of the response from which an endpoint takes its response type. -/
  successResponse : String
  /-- Whether an endpoint without that response ends the run instead of being skipped. -/
  strict : Bool
  /-- A directory with templates to use in place of those built in. -/
  templateDir : Option Path
deriving DecidableEq

namespace Config

def defaultBaseUrl : BaseUrl where
  url :=
    ⟨"https".toList, some ⟨[], [], "www.apifox.cn".toList, none⟩, .segments [[]], none, none⟩
  read_text := by decide +kernel

def default : Config where
  shareId := none
  baseUrl := defaultBaseUrl
  outputDir := ⟨"dist"⟩
  requestImport := "@/utils/request"
  successResponse := "OK"
  strict := false
  templateDir := none

end Config

end ApiTypings
