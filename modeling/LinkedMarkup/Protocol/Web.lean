import LinkedMarkup.Protocol.Handler
import LinkedMarkup.Web.Client
import LinkedMarkup.Web.Url
/-! References over the network. The media type says how the content is read, or the extension of
the path if there is no media type. -/
namespace LinkedMarkup.Handler
open Web

/-- Fetch what a reference means and read it. -/
def webContent (client : Client) (network : Network) (uri : Uri) : Except ReferenceError Resolved :=
  match Url.parse uri.protocol uri.path with
  | .error fault => .error (.invalidUri (uri.key ++ ": " ++ fault.message))
  | .ok url =>
    match (client.fetch uri.key (network url.text)).result with
    | .error e => .error e
    | .ok download =>
      let kind := (download.mediaType.bind ContentKind.ofMediaType?).getD (.ofPath url.path)
      decode uri.key download.text kind

def ofWeb (client : Client) (network : Network) : Handler where
  name := "http"
  handles protocol := protocol == "http" || protocol == "https"
  answer request := { turns := 1, outcome? := some (webContent client network request.uri) }

end LinkedMarkup.Handler
